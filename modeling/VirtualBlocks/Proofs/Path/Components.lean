import VirtualBlocks.Path

/-!
Contract: the steps of a path, piece by piece.

Owns:
- the steps between slashes, which a slash anywhere in the text divides;
- the names that are a step of their own, and the steps of names joined by
  slashes;
- the components of an absolute path: the root and the steps of its text.

Does not own: normal forms and directories (`Proofs.Path.NormalForm`).
-/

namespace VirtualBlocks.Path

/-! ## Steps between slashes -/

/-- The steps that the segments of a text stand for. -/
def steps (text : List Char) : List Component :=
  (text.splitOn '/').filterMap Component.ofSegment?

@[simp] theorem steps_nil : steps [] = [] := rfl

theorem steps_append_cons (left right : List Char) :
    steps (left ++ '/' :: right) = steps left ++ steps right := by
  unfold steps
  rw [List.splitOn_append_cons_self, List.filterMap_append]

theorem steps_cons (text : List Char) : steps ('/' :: text) = steps text :=
  steps_append_cons [] text

theorem steps_of_notMem {segment : List Char} (single : '/' ∉ segment) :
    steps segment = (Component.ofSegment? segment).toList := by
  unfold steps
  rw [List.splitOn_eq_singleton single]
  cases found : Component.ofSegment? segment <;> simp [found]

theorem components_of_isAbsolute {path : Path} (absolute : path.isAbsolute = true) :
    path.components = .root :: steps path.text.toList := by
  have starts := List.head?_eq_some_iff.1 (eq_of_beq absolute)
  obtain ⟨rest, text⟩ := starts
  unfold components
  rw [text, steps_cons]
  rfl

/-! ## Segments -/

theorem of_mem_splitOn {text segment : List Char} (member : segment ∈ text.splitOn '/') :
    '/' ∉ segment ∧ ∀ c ∈ segment, c ∈ text := by
  induction text generalizing segment with
  | nil =>
      rw [List.splitOn_nil, List.mem_singleton] at member
      simp [member]
  | cons c rest inductionHypothesis =>
      rw [List.splitOn_cons_eq_if_modifyHead] at member
      by_cases slash : c = '/'
      · rw [if_pos (beq_iff_eq.2 slash)] at member
        rcases List.mem_cons.1 member with rfl | inRest
        · simp
        · obtain ⟨single, within⟩ := inductionHypothesis inRest
          exact ⟨single, fun d inSegment => List.mem_cons_of_mem _ (within d inSegment)⟩
      · rw [if_neg (by simpa using slash)] at member
        cases split : rest.splitOn '/' with
        | nil => exact absurd split (List.splitOn_ne_nil _ _)
        | cons first others =>
            rw [split, List.modifyHead_cons] at member
            rcases List.mem_cons.1 member with rfl | inOthers
            · obtain ⟨single, within⟩ := inductionHypothesis (split ▸ List.mem_cons_self)
              refine ⟨?_, ?_⟩
              · simp [single, Ne.symm slash]
              · intro d inSegment
                exact (List.mem_cons.1 inSegment).elim (fun same => same ▸ List.mem_cons_self)
                  (fun inFirst => List.mem_cons_of_mem _ (within d inFirst))
            · obtain ⟨single, within⟩ :=
                inductionHypothesis (split ▸ List.mem_cons_of_mem _ inOthers)
              exact ⟨single, fun d inSegment => List.mem_cons_of_mem _ (within d inSegment)⟩

/-- Segments joined by slashes give back the steps of each one. -/
theorem steps_intercalate (segments : List (List Char)) (single : ∀ s ∈ segments, '/' ∉ s) :
    steps (['/'].intercalate segments) = segments.filterMap Component.ofSegment? := by
  cases segments with
  | nil => rfl
  | cons first others =>
      unfold steps
      rw [List.splitOn_intercalate '/' single (List.cons_ne_nil _ _)]

/-! ## Names -/

/-- A text that is a step of its own and neither `.` nor `..`. -/
structure IsName (text : String) : Prop where
  single : '/' ∉ text.toList
  nonempty : text ≠ ""
  notCurrent : text ≠ "."
  notParent : text ≠ ".."

theorem isName_of_length {text : String} (single : '/' ∉ text.toList)
    (long : 2 < text.toList.length) : IsName text := by
  constructor
  · exact single
  · rintro rfl
    contradiction
  · rintro rfl
    contradiction
  · rintro rfl
    contradiction

theorem ofSegment?_of_isName {text : String} (isName : IsName text) :
    Component.ofSegment? text.toList = some (.name text) := by
  have nonempty : text.toList ≠ [] := by simpa using isName.nonempty
  have notCurrent : text.toList ≠ ['.'] := fun same =>
    isName.notCurrent (String.toList_inj.1 same)
  have notParent : text.toList ≠ ['.', '.'] := fun same =>
    isName.notParent (String.toList_inj.1 same)
  unfold Component.ofSegment?
  split
  · contradiction
  · contradiction
  · contradiction
  · rw [String.ofList_toList]

theorem steps_of_isName {text : String} (isName : IsName text) :
    steps text.toList = [.name text] := by
  rw [steps_of_notMem isName.single, ofSegment?_of_isName isName]
  rfl

/-- A step of a text is a step up, or a name that stands in the text. -/
theorem of_mem_steps {text : List Char} {step : Component} (member : step ∈ steps text) :
    step = .parent ∨ ∃ name, step = .name name ∧ IsName name ∧ ∀ c ∈ name.toList, c ∈ text := by
  obtain ⟨segment, inText, isStep⟩ := List.mem_filterMap.1 member
  obtain ⟨single, within⟩ := of_mem_splitOn inText
  unfold Component.ofSegment? at isStep
  split at isStep
  · cases isStep
  · cases isStep
  · exact .inl (Option.some.inj isStep).symm
  · rename_i nonempty notCurrent notParent
    refine .inr ⟨String.ofList segment, (Option.some.inj isStep).symm, ?_, ?_⟩
    · constructor
      · rwa [String.toList_ofList]
      · exact fun same => nonempty (by simpa using same)
      · exact fun same => notCurrent (by simpa using congrArg String.toList same)
      · exact fun same => notParent (by simpa using congrArg String.toList same)
    · rwa [String.toList_ofList]

/-- Without steps up, the steps of a text are names. -/
theorem exists_names_of_steps {text : List Char} (noParent : .parent ∉ steps text) :
    ∃ names : List String, steps text = names.map .name ∧
      ∀ name ∈ names, IsName name ∧ ∀ c ∈ name.toList, c ∈ text := by
  have isNamed : ∀ step ∈ steps text, ∃ name, (IsName name ∧ ∀ c ∈ name.toList, c ∈ text) ∧
      Component.name name = step := by
    intro step member
    rcases of_mem_steps member with rfl | ⟨name, rfl, isName, within⟩
    · exact absurd member noParent
    · exact ⟨name, ⟨isName, within⟩, rfl⟩
  generalize steps text = all at isNamed
  induction all with
  | nil => exact ⟨[], rfl, by simp⟩
  | cons step rest inductionHypothesis =>
      obtain ⟨name, isName, rfl⟩ := isNamed step List.mem_cons_self
      obtain ⟨names, same, areNames⟩ := inductionHypothesis
        (fun other member => isNamed other (List.mem_cons_of_mem _ member))
      exact ⟨name :: names, congrArg (List.cons _) same, List.forall_mem_cons.2 ⟨isName, areNames⟩⟩

end VirtualBlocks.Path
