import VirtualBlocks.Assets
import VirtualBlocks.Proofs.Text.Occurrence

/-!
Contract: the name that the asset of a literal is bound to.

Owns:
- the runs of a literal: its stretches of lower-case letters and digits;
- a binding as the runs of its literal between underscores;
- two literals have one binding exactly when they have the same runs.

Does not own: which bindings are imported (`Proofs.Assets.Imports`).
-/

namespace VirtualBlocks.Assets

/-! ## Runs -/

/-- The stretches of binding characters of a literal, none of which can be made
longer, from left to right. -/
def runs (literal : List Char) : List (List Char) :=
  (literal.splitOnP (fun c => !isBindingChar c)).filter (fun run => !run.isEmpty)

theorem all_of_mem_splitOnP {text run : List Char}
    (member : run ∈ text.splitOnP (fun c => !isBindingChar c)) :
    ∀ c ∈ run, isBindingChar c = true := by
  induction text generalizing run with
  | nil =>
      rw [List.splitOnP_nil, List.mem_singleton] at member
      rw [member]
      exact List.forall_mem_nil _
  | cons c rest inductionHypothesis =>
      rw [List.splitOnP_cons_eq_if_modifyHead] at member
      obtain ⟨first, others, restSplit⟩ :=
        List.exists_cons_of_ne_nil (List.splitOnP_ne_nil (fun c => !isBindingChar c) rest)
      rw [restSplit] at member inductionHypothesis
      cases isBinding : isBindingChar c with
      | false =>
          simp only [isBinding, Bool.not_false, if_true, List.mem_cons] at member
          rcases member with rfl | inRest
          · exact List.forall_mem_nil _
          · exact inductionHypothesis (List.mem_cons.2 inRest)
      | true =>
          simp only [isBinding, Bool.not_true, Bool.false_eq_true, if_false,
            List.modifyHead_cons, List.mem_cons] at member
          rcases member with rfl | inOthers
          · exact List.forall_mem_cons.2 ⟨isBinding, inductionHypothesis List.mem_cons_self⟩
          · exact inductionHypothesis (List.mem_cons_of_mem first inOthers)

/-- A run is not empty and made of binding characters. -/
theorem of_mem_runs {literal run : List Char} (member : run ∈ runs literal) :
    run ≠ [] ∧ ∀ c ∈ run, isBindingChar c = true := by
  obtain ⟨inSplit, nonempty⟩ := List.mem_filter.1 member
  exact ⟨by simpa using nonempty, all_of_mem_splitOnP inSplit⟩

theorem underscore_notMem_of_mem_runs {literal run : List Char} (member : run ∈ runs literal) :
    '_' ∉ run := by
  intro isIn
  exact absurd ((of_mem_runs member).2 '_' isIn) (by decide)

theorem runs_append_cons {c : Char} (other : isBindingChar c = false) (front rest : List Char) :
    runs (front ++ c :: rest) = runs front ++ runs rest := by
  unfold runs
  rw [List.splitOnP_append_cons front rest (by simp [other]), List.filter_append]

theorem runs_of_all {run : List Char} (all : ∀ c ∈ run, isBindingChar c = true)
    (nonempty : run ≠ []) : runs run = [run] := by
  have single : run.splitOnP (fun c => !isBindingChar c) = [run] := by
    apply List.splitOnP_eq_singleton
    intro c member
    simp [all c member]
  unfold runs
  rw [single]
  simp [nonempty]

/-! ## The runs in a binding -/

/-- The runs of a literal with an underscore between each two of them. -/
def joinedRuns (literal : List Char) : List Char :=
  ['_'].intercalate (runs literal)

theorem joinedRuns_of_nothing {literal : List Char} (nothing : runs literal = []) :
    joinedRuns literal = [] := by
  unfold joinedRuns
  rw [nothing]
  rfl

theorem joinedRuns_cons {c : Char} (other : isBindingChar c = false) (rest : List Char) :
    joinedRuns (c :: rest) = joinedRuns rest :=
  congrArg (['_'].intercalate ·) (runs_append_cons other [] rest)

theorem joinedRuns_append_cons {c : Char} (other : isBindingChar c = false) {run : List Char}
    (all : ∀ c ∈ run, isBindingChar c = true) (nonempty : run ≠ []) (rest : List Char) :
    joinedRuns (run ++ c :: rest) =
      if runs rest = [] then run else run ++ '_' :: joinedRuns rest := by
  unfold joinedRuns
  rw [runs_append_cons other, runs_of_all all nonempty, List.singleton_append]
  cases runs rest with
  | nil => exact List.intercalate_singleton
  | cons next more =>
      rw [if_neg (List.cons_ne_nil next more), List.intercalate_cons_cons, List.append_assoc]
      rfl

theorem joinedRuns_of_all {run : List Char} (all : ∀ c ∈ run, isBindingChar c = true) :
    joinedRuns run = run := by
  unfold joinedRuns
  cases run with
  | nil => rfl
  | cons c rest =>
      rw [runs_of_all all (List.cons_ne_nil c rest)]
      exact List.intercalate_singleton

/-- No underscore stands at the end of the joined runs. -/
theorem getLast?_joinedRuns_ne (literal : List Char) :
    (joinedRuns literal).getLast? ≠ some '_' := by
  intro last
  obtain ⟨front, ends⟩ := List.getLast?_eq_some_iff.1 last
  have nonempty : runs literal ≠ [] := by
    intro empty
    rw [joinedRuns_of_nothing empty] at ends
    simp at ends
  have split : (joinedRuns literal).splitOn '_' = runs literal :=
    List.splitOn_intercalate '_' (fun _ member => underscore_notMem_of_mem_runs member) nonempty
  rw [ends, List.splitOn_append_cons_self, List.splitOn_nil] at split
  have emptyRun : [] ∈ runs literal := split ▸ List.mem_append_right _ List.mem_cons_self
  exact (of_mem_runs emptyRun).1 rfl

/-- The runs are what the joined runs are made of. -/
theorem runs_eq_of_joinedRuns (literal : List Char) :
    ((joinedRuns literal).splitOn '_').filter (fun run => !run.isEmpty) = runs literal :=
  Text.filter_splitOn_intercalate (fun _ member => (of_mem_runs member).1)
    (fun _ member => underscore_notMem_of_mem_runs member)

/-! ## Underscored texts -/

/-- A text is the joined runs of a literal, or these with one underscore behind
them. -/
def IsUnderscored (literal text : List Char) : Prop :=
  text = joinedRuns literal ∨ runs literal ≠ [] ∧ text = joinedRuns literal ++ ['_']

section IsUnderscored

variable {c : Char} (other : isBindingChar c = false) {rest text : List Char}
include other

theorem IsUnderscored.cons (isUnderscored : IsUnderscored rest text) :
    IsUnderscored (c :: rest) text := by
  have same : runs (c :: rest) = runs rest := runs_append_cons other [] rest
  unfold IsUnderscored
  rw [joinedRuns_cons other, same]
  exact isUnderscored

theorem IsUnderscored.append_cons {run : List Char}
    (all : ∀ c ∈ run, isBindingChar c = true) (nonempty : run ≠ [])
    (isUnderscored : IsUnderscored rest text) :
    IsUnderscored (run ++ c :: rest) (run ++ '_' :: text) := by
  have hasRun : runs (run ++ c :: rest) ≠ [] := by
    rw [runs_append_cons other, runs_of_all all nonempty]
    exact List.cons_ne_nil run (runs rest)
  unfold IsUnderscored
  rw [joinedRuns_append_cons other all nonempty]
  rcases isUnderscored with rfl | ⟨further, rfl⟩
  · by_cases lastRun : runs rest = []
    · rw [if_pos lastRun, joinedRuns_of_nothing lastRun]
      exact .inr ⟨hasRun, rfl⟩
    · rw [if_neg lastRun]
      exact .inl rfl
  · rw [if_neg further]
    exact .inr ⟨hasRun, by simp⟩

end IsUnderscored

theorem dropTrailing_of_isUnderscored {literal text : List Char}
    (isUnderscored : IsUnderscored literal text) : dropTrailing text = joinedRuns literal := by
  unfold dropTrailing
  rcases isUnderscored with rfl | ⟨-, rfl⟩
  · rw [if_neg (getLast?_joinedRuns_ne literal)]
  · rw [List.getLast?_concat, if_pos rfl, List.dropLast_concat]

theorem underscored_of_binding {c : Char} (isBinding : isBindingChar c = true)
    (afterUnderscore : Bool) (rest : List Char) :
    underscored afterUnderscore (c :: rest) = c :: underscored false rest :=
  if_pos isBinding

theorem underscored_of_other {c : Char} (other : isBindingChar c = false)
    (afterUnderscore : Bool) (rest : List Char) :
    underscored afterUnderscore (c :: rest) =
      if afterUnderscore then underscored true rest else '_' :: underscored true rest :=
  if_neg (Bool.eq_false_iff.1 other)

/-- Underscoring goes on behind a run, or behind the underscore that was just
written. -/
theorem isUnderscored_underscored {run : List Char} (all : ∀ c ∈ run, isBindingChar c = true)
    (text : List Char) :
    IsUnderscored (run ++ text) (run ++ underscored run.isEmpty text) := by
  induction text generalizing run with
  | nil =>
      left
      rw [List.append_nil, joinedRuns_of_all all]
      exact List.append_nil run
  | cons c rest inductionHypothesis =>
      cases isBinding : isBindingChar c with
      | true =>
          -- the run goes on
          have longer := inductionHypothesis
            (List.forall_mem_append.2 ⟨all, List.forall_mem_singleton.2 isBinding⟩)
          have written : (run ++ [c]).isEmpty = false := by simp
          rw [written, List.append_assoc, List.append_assoc] at longer
          rw [underscored_of_binding isBinding]
          exact longer
      | false =>
          have behind := inductionHypothesis (List.forall_mem_nil _)
          rw [underscored_of_other isBinding]
          cases run with
          | nil => exact behind.cons isBinding
          | cons first more => exact behind.append_cons isBinding all (List.cons_ne_nil first more)

theorem dropLeading_underscored (text : List Char) :
    dropLeading (underscored false text) = underscored true text := by
  cases text with
  | nil => rfl
  | cons c rest =>
      cases isBinding : isBindingChar c with
      | false =>
          rw [underscored_of_other isBinding, underscored_of_other isBinding]
          rfl
      | true =>
          rw [underscored_of_binding isBinding, underscored_of_binding isBinding]
          unfold dropLeading
          split
          · rename_i others same
            rw [(List.cons.inj same).1] at isBinding
            exact absurd isBinding (by decide)
          · rfl

/-! ## Bindings -/

/-- A binding is made of the runs of its literal. -/
theorem binding_eq (literal : List Char) :
    binding literal = "__$_require_".toList ++ joinedRuns literal ++ ['_', '_'] := by
  have trimmed : dropTrailing (dropLeading (underscored false literal)) = joinedRuns literal := by
    rw [dropLeading_underscored]
    exact dropTrailing_of_isUnderscored (isUnderscored_underscored (List.forall_mem_nil _) literal)
  unfold binding
  rw [trimmed]

/-- Two literals have one binding exactly when they have the same runs. -/
theorem binding_eq_iff {first second : List Char} :
    binding first = binding second ↔ runs first = runs second := by
  rw [binding_eq, binding_eq]
  constructor
  · intro same
    have joined := List.append_cancel_left (List.append_cancel_right same)
    rw [← runs_eq_of_joinedRuns first, ← runs_eq_of_joinedRuns second, joined]
  · intro same
    unfold joinedRuns
    rw [same]

end VirtualBlocks.Assets
