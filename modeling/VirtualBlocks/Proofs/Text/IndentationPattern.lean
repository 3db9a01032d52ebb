import VirtualBlocks.Text.Indentation

/-!
Contract: indentation as the matches of a pattern.

Owns:
- the pattern of indentation, one or more blanks behind the start of a line, and
  its first match in a text, which is the leftmost and there the longest one;
- what is left of a text without the matches that are found from left to right,
  and that it is the text without its indentation.

Does not own: what is left of each line (`Proofs.Text.SolidLines`).
-/

namespace VirtualBlocks.Text

/-! ## Runs of blanks -/

theorem dropIndentation_append_of_blank {run : List Char} (blank : ∀ c ∈ run, isBlank c = true)
    (rest : List Char) : dropIndentation true (run ++ rest) = dropIndentation true rest := by
  induction run with
  | nil => rfl
  | cons c others inductionHypothesis =>
      obtain ⟨isBlank, othersBlank⟩ := List.forall_mem_cons.1 blank
      rw [List.cons_append, dropIndentation, Bool.true_and, if_pos isBlank,
        inductionHypothesis othersBlank]

/-- In front of a character that is not blank, it is no matter whether a line starts. -/
theorem dropIndentation_of_solid {text : List Char}
    (solid : ∀ c ∈ text.head?, isBlank c = false) (left right : Bool) :
    dropIndentation left text = dropIndentation right text := by
  cases text with
  | nil => rfl
  | cons c rest =>
      have notBlank : isBlank c = false := solid c rfl
      rw [dropIndentation, dropIndentation, notBlank, Bool.and_false, Bool.and_false]

theorem isBlank_head?_dropWhile (text : List Char) :
    ∀ c ∈ (text.dropWhile isBlank).head?, isBlank c = false := by
  intro c isHead
  have stops := List.head?_dropWhile_not isBlank text
  rw [Option.mem_def.1 isHead] at stops
  exact stops

theorem isBlank_of_mem_takeWhile (text : List Char) :
    ∀ c ∈ text.takeWhile isBlank, isBlank c = true :=
  List.all_eq_true.1 List.all_takeWhile

/-! ## The pattern of indentation -/

/-- Whether a line starts behind a text. -/
def startsLine (before : List Char) : Bool :=
  before.getLast?.all (· == '\n')

theorem startsLine_concat (before : List Char) (c : Char) :
    startsLine (before ++ [c]) = (c == '\n') := by
  unfold startsLine
  rw [List.getLast?_concat, Option.all_some]

/-- The pattern matches a run behind a text: a line starts there, and the run is
made of blanks, one or more. -/
structure IsIndentation (before run : List Char) : Prop where
  starts : startsLine before = true
  nonempty : run ≠ []
  blank : ∀ c ∈ run, isBlank c = true

/-- Behind the text `before`, the first match in `kept ++ run ++ rest` is `run`: none
starts further to the left, and none that starts there is longer. -/
structure IsFirstIndentation (before kept run rest : List Char) : Prop where
  isIndentation : IsIndentation (before ++ kept) run
  leftmost : ∀ front other behind, kept ++ run ++ rest = front ++ other ++ behind →
    IsIndentation (before ++ front) other → kept.length ≤ front.length
  longest : ∀ other behind, run ++ rest = other ++ behind →
    IsIndentation (before ++ kept) other → other.length ≤ run.length

/-- What is left of a text without the matches in it, which are looked for from left to
right, each behind the one before. The text stands behind the text `before`. -/
inductive LeftWithout : (before text left : List Char) → Prop
  | nothing {before text : List Char}
      (absent : ∀ front other behind, text = front ++ other ++ behind →
        ¬ IsIndentation (before ++ front) other) : LeftWithout before text text
  | next {before kept run rest left : List Char}
      (first : IsFirstIndentation before kept run rest)
      (further : LeftWithout (before ++ kept ++ run) rest left) :
      LeftWithout before (kept ++ run ++ rest) (kept ++ left)

theorem IsIndentation.singleton {before : List Char} {c : Char}
    (starts : startsLine before = true) (blank : isBlank c = true) : IsIndentation before [c] :=
  ⟨starts, List.cons_ne_nil c [], List.forall_mem_singleton.2 blank⟩

/-- Where no match starts, nothing is dropped. -/
theorem dropIndentation_kept {before kept : List Char}
    (absent : ∀ front c behind, kept = front ++ c :: behind →
      ¬ IsIndentation (before ++ front) [c]) (rest : List Char) :
    dropIndentation (startsLine before) (kept ++ rest) =
      kept ++ dropIndentation (startsLine (before ++ kept)) rest := by
  induction kept generalizing before with
  | nil => rw [List.nil_append, List.nil_append, List.append_nil]
  | cons c others inductionHypothesis =>
      have stays : ¬ (startsLine before && isBlank c) = true := by
        intro both
        obtain ⟨starts, blank⟩ := Bool.and_eq_true_iff.1 both
        have here := absent [] c others rfl
        rw [List.append_nil] at here
        exact here (.singleton starts blank)
      have absentBehind : ∀ front d behind, others = front ++ d :: behind →
          ¬ IsIndentation (before ++ [c] ++ front) [d] := by
        intro front d behind whole
        rw [← List.append_cons before c front]
        exact absent (c :: front) d behind (congrArg (c :: ·) whole)
      have behind := inductionHypothesis absentBehind
      rw [startsLine_concat, ← List.append_cons before c others] at behind
      rw [List.cons_append, dropIndentation, if_neg stays, behind, List.cons_append]

theorem IsFirstIndentation.solid {before kept run rest : List Char}
    (first : IsFirstIndentation before kept run rest) :
    ∀ c ∈ rest.head?, isBlank c = false := by
  intro c isHead
  obtain ⟨behind, rfl⟩ := List.head?_eq_some_iff.1 isHead
  cases blank : isBlank c with
  | false => rfl
  | true =>
      -- the run would be longer by this character
      obtain ⟨⟨starts, nonempty, runBlank⟩, -, longest⟩ := first
      have within := longest (run ++ [c]) behind (List.append_cons run c behind)
        ⟨starts, by simp, List.forall_mem_append.2 ⟨runBlank, List.forall_mem_singleton.2 blank⟩⟩
      rw [List.length_append, List.length_singleton] at within
      omega

theorem LeftWithout.eq_dropIndentation {before text left : List Char}
    (leftWithout : LeftWithout before text left) :
    left = dropIndentation (startsLine before) text := by
  induction leftWithout with
  | @nothing before text absent =>
      have nowhere : ∀ front c behind, text = front ++ c :: behind →
          ¬ IsIndentation (before ++ front) [c] := by
        intro front c behind whole
        rw [List.append_cons] at whole
        exact absent front [c] behind whole
      have stays := dropIndentation_kept nowhere []
      rw [List.append_nil, dropIndentation, List.append_nil] at stays
      exact stays.symm
  | @next before kept run rest left first further inductionHypothesis =>
      have notBefore : ∀ front c behind, kept = front ++ c :: behind →
          ¬ IsIndentation (before ++ front) [c] := by
        intro front c behind whole isIndentation
        have within := first.leftmost front [c] (behind ++ run ++ rest) (by simp [whole])
          isIndentation
        rw [whole, List.length_append, List.length_cons] at within
        omega
      rw [List.append_assoc, dropIndentation_kept notBefore, first.isIndentation.starts,
        dropIndentation_append_of_blank first.isIndentation.blank, inductionHypothesis,
        dropIndentation_of_solid first.solid]

/-- Behind a character that no match starts with, each match is one of the rest. -/
theorem exists_cons_of_isIndentation {before rest front other behind : List Char} {c : Char}
    (absent : ¬ IsIndentation before [c]) (whole : c :: rest = front ++ other ++ behind)
    (isIndentation : IsIndentation (before ++ front) other) :
    ∃ further, front = c :: further ∧ rest = further ++ other ++ behind ∧
      IsIndentation (before ++ [c] ++ further) other := by
  cases front with
  | nil =>
      obtain ⟨starts, nonempty, blank⟩ := isIndentation
      obtain ⟨first, others, rfl⟩ := List.exists_cons_of_ne_nil nonempty
      rw [List.append_nil] at starts
      obtain ⟨rfl, -⟩ := List.cons.inj whole
      exact absurd (.singleton starts (blank c List.mem_cons_self)) absent
  | cons d further =>
      obtain ⟨rfl, wholeRest⟩ := List.cons.inj whole
      refine ⟨further, rfl, wholeRest, ?_⟩
      rwa [← List.append_cons before c further]

theorem LeftWithout.cons {before rest left : List Char} {c : Char}
    (absent : ¬ IsIndentation before [c]) (leftWithout : LeftWithout (before ++ [c]) rest left) :
    LeftWithout before (c :: rest) (c :: left) := by
  cases leftWithout with
  | nothing absentBehind =>
      refine .nothing ?_
      intro front other behind whole isIndentation
      obtain ⟨inner, -, wholeRest, isInner⟩ :=
        exists_cons_of_isIndentation absent whole isIndentation
      exact absentBehind inner other behind wholeRest isInner
  | @next _ kept run tail left first further =>
      obtain ⟨isIndentation, leftmost, longest⟩ := first
      rw [← List.append_cons before c kept] at isIndentation longest further
      have first : IsFirstIndentation before (c :: kept) run tail := by
        refine ⟨isIndentation, ?_, longest⟩
        intro front other behind whole isOther
        obtain ⟨inner, rfl, wholeRest, isInner⟩ :=
          exists_cons_of_isIndentation absent whole isOther
        exact Nat.succ_le_succ (leftmost inner other behind wholeRest isInner)
      exact .next first further

/-- A run in front of a character that is not blank is the first match. -/
theorem LeftWithout.run_append {before run rest left : List Char}
    (isIndentation : IsIndentation before run) (solid : ∀ c ∈ rest.head?, isBlank c = false)
    (further : LeftWithout (before ++ run) rest left) : LeftWithout before (run ++ rest) left := by
  rw [← List.append_nil before] at isIndentation
  have first : IsFirstIndentation before [] run rest := by
    refine ⟨isIndentation, fun _ _ _ _ _ => Nat.zero_le _, ?_⟩
    intro other behind whole isOther
    rcases List.append_eq_append_iff.1 whole with ⟨beyond, rfl, rfl⟩ | ⟨beyond, rfl, -⟩
    · cases beyond with
      | nil => exact Nat.le_of_eq (congrArg List.length (List.append_nil run))
      | cons c others =>
          have notBlank := solid c rfl
          rw [isOther.blank c (by simp)] at notBlank
          contradiction
    · rw [List.length_append]
      exact Nat.le_add_right _ _
  rw [← List.append_nil before] at further
  exact .next first further

theorem exists_leftWithout (before text : List Char) : ∃ left, LeftWithout before text left := by
  induction length : text.length using Nat.strongRecOn generalizing before text with
  | ind count inductionHypothesis =>
      cases text with
      | nil =>
          refine ⟨[], .nothing ?_⟩
          intro front other behind whole isIndentation
          exact isIndentation.nonempty (by simp_all)
      | cons c rest =>
          rw [List.length_cons] at length
          by_cases here : IsIndentation before [c]
          · have cut := List.takeWhile_append_dropWhile (p := isBlank) (l := rest)
            have shorter := (List.dropWhile_suffix isBlank (l := rest)).length_le
            obtain ⟨left, leftWithout⟩ := inductionHypothesis _ (by omega)
              (before ++ c :: rest.takeWhile isBlank) (rest.dropWhile isBlank) rfl
            have isIndentation : IsIndentation before (c :: rest.takeWhile isBlank) :=
              ⟨here.starts, List.cons_ne_nil _ _, List.forall_mem_cons.2
                ⟨here.blank c (List.mem_singleton_self c), isBlank_of_mem_takeWhile rest⟩⟩
            have found := leftWithout.run_append isIndentation (isBlank_head?_dropWhile rest)
            rw [List.cons_append, cut] at found
            exact ⟨left, found⟩
          · obtain ⟨left, leftWithout⟩ := inductionHypothesis _ (by omega) (before ++ [c]) rest rfl
            exact ⟨c :: left, leftWithout.cons here⟩

/-- What is left of a text without the matches of the pattern is the text without its
indentation. -/
theorem leftWithout_iff {text left : List Char} :
    LeftWithout [] text left ↔ left = unindent text := by
  constructor
  · exact LeftWithout.eq_dropIndentation
  · rintro rfl
    obtain ⟨left, leftWithout⟩ := exists_leftWithout [] text
    have same : left = unindent text := leftWithout.eq_dropIndentation
    rwa [same] at leftWithout

end VirtualBlocks.Text
