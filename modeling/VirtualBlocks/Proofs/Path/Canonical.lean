import VirtualBlocks.Proofs.Path.Folded

/-!
Contract: the normal form of a path is canonical.

Owns:
- the paths in normal form: names below the root, names behind steps up, or `.`;
- the normal form built in place, where each step changes the text written so far and reads it
  again to see what it may take back;
- that every path has its normal form among these, that both ways to build it agree, that it is
  its own normal form, and that it may stand for the path in front of any other one.

Does not own: which file a path names (`Path.SameFile`).
-/

namespace VirtualBlocks.Path

/-- The paths that are a normal form. -/
inductive IsNormal : Path → Prop
  | current : IsNormal ⟨"."⟩
  | belowRoot {names : List String} (areNames : ∀ name ∈ names, IsName name) :
      IsNormal (ofNames names)
  | upwards (ups : Nat) {names : List String} (areNames : ∀ name ∈ names, IsName name)
      (nonempty : 0 < ups ∨ names ≠ []) :
      IsNormal ⟨"/".intercalate (List.replicate ups ".." ++ names)⟩

/-! ## Building in place -/

/-- The text written so far after one more step. A step up looks at the last step of the text
and cuts it off when it is a name. -/
def advance (out : Path) : Component → Path
  | .current => out
  | .parent =>
      match out.components.getLast? with
      | some (.name _) => out.parent?.getD (out.join ⟨".."⟩)
      | some .root => out
      | _ => out.join ⟨".."⟩
  | step => out.join ⟨step.text⟩

/-- The normal form, built step by step in one text. -/
def normalizeInPlace (path : Path) : Path :=
  let out := path.components.foldl advance ⟨""⟩
  if out.text = "" then out.join ⟨"."⟩ else out

namespace IsFolded

variable {taken : List Component} (folded : IsFolded taken)
include folded

theorem join_written {step : Component} (notRoot : step ≠ .root)
    (solid : IsSolid step.text.toList) :
    (written taken).join ⟨step.text⟩ = written (step :: taken) := by
  have joined := join_ofSegments (!taken.contains .root) folded.solid_segmentsOf solid
  rw [String.ofList_toList] at joined
  rw [written_cons notRoot]
  exact joined

theorem advance_name {name : String} (isName : IsName name) :
    advance (written taken) (.name name) = written (.name name :: taken) :=
  folded.join_written Component.noConfusion (isSolid_of_isName isName)

/-- A step up changes the text as it changes the steps. -/
theorem advance_parent : advance (written taken) .parent = written (takeStep taken .parent) := by
  -- The last step of the text is the last step taken, so both cases are told from the same step.
  have last : (written taken).components.getLast? = taken.head? := by
    rw [folded.components_written, List.getLast?_reverse]
  have notRoot : Component.parent ≠ .root := Component.noConfusion
  have kept : (written taken).join ⟨".."⟩ = written (.parent :: taken) :=
    folded.join_written notRoot isSolid_parent
  unfold advance
  rw [last]
  cases taken with
  | nil => exact kept
  | cons step before =>
      cases step with
      | root => rfl
      | current => exact kept
      | parent => exact kept
      | name text =>
          obtain ⟨solid, solidBefore⟩ := List.forall_mem_cons.1 folded.solid_segmentsOf
          have cut : (written (.name text :: before)).parent? = some (written before) := by
            rw [written_cons Component.noConfusion]
            exact parent?_ofSegments _ solidBefore solid
          show (written (.name text :: before)).parent?.getD _ = written before
          rw [cut, Option.getD_some]

theorem segmentsOf_ne_nil (nonempty : taken ≠ []) (notRoot : taken ≠ [.root]) :
    segmentsOf taken ≠ [] := by
  cases folded with
  | @belowRoot names areNames =>
      rw [segmentsOf_names]
      cases names with
      | nil => exact absurd rfl notRoot
      | cons name before => exact List.cons_ne_nil _ _
  | upwards areNames ups =>
      rw [segmentsOf_names, segmentsOf_parents]
      simpa using nonempty

theorem text_written_eq_iff : (written taken).text = "" ↔ taken = [] := by
  constructor
  · intro empty
    have noSteps : (written taken).components = [] := by
      unfold components
      rw [empty]
      rfl
    rw [folded.components_written] at noSteps
    exact List.reverse_eq_nil_iff.1 noSteps
  · rintro rfl
    rfl

/-- What the steps are written as is in normal form. -/
theorem isNormal (nonempty : taken ≠ []) : IsNormal (ofComponents taken.reverse) := by
  cases folded with
  | @belowRoot names areNames =>
      rw [List.reverse_append, ← List.map_reverse, List.reverse_singleton,
        List.singleton_append, ofComponents_names]
      exact .belowRoot (fun name member => areNames name (List.mem_reverse.1 member))
  | @upwards names areNames ups =>
      have texts : (names.map Component.name ++ List.replicate ups Component.parent).reverse.map
          Component.text = List.replicate ups ".." ++ names.reverse := by
        simp [Function.comp_def, Component.text]
      rw [ofComponents_of_notMem (mt List.reverse_eq_nil_iff.1 nonempty) (by simp), texts]
      refine .upwards ups (fun name member => areNames name (List.mem_reverse.1 member)) ?_
      by_cases noUps : ups = 0
      · exact .inr (by simpa [noUps] using nonempty)
      · exact .inl (Nat.pos_of_ne_zero noUps)

end IsFolded

theorem foldl_advance_steps {taken : List Component} (folded : IsFolded taken)
    (text : List Char) :
    (steps text).foldl advance (written taken) = written ((steps text).foldl takeStep taken) := by
  have related : IsFolded ((steps text).foldl takeStep taken) ∧
      (steps text).foldl advance (written taken) =
        written ((steps text).foldl takeStep taken) := by
    refine List.foldl_rel (r := fun out taken => IsFolded taken ∧ out = written taken)
      ⟨folded, rfl⟩ ?_
    rintro step member out taken ⟨folded, rfl⟩
    rcases parent_or_name_of_mem_steps text step member with rfl | ⟨name, rfl, isName⟩
    · exact ⟨folded.parent, folded.advance_parent⟩
    · exact ⟨folded.name isName, folded.advance_name isName⟩
  exact related.2

/-- Both ways to build the normal form agree. -/
theorem normalize_eq_normalizeInPlace (path : Path) : path.normalize = normalizeInPlace path := by
  have built : path.components.foldl advance ⟨""⟩ = written path.folded := by
    rw [folded_eq]
    cases absolute : path.isAbsolute with
    | true =>
        have fromRoot : advance ⟨""⟩ .root = written [.root] := by decide
        rw [components_of_isAbsolute absolute, List.foldl_cons, fromRoot, if_pos rfl]
        exact foldl_advance_steps isFolded_root path.text.toList
    | false =>
        have fromEmpty : (steps path.text.toList).foldl advance ⟨""⟩ =
            written ((steps path.text.toList).foldl takeStep []) :=
          foldl_advance_steps isFolded_nil path.text.toList
        rw [if_neg Bool.false_ne_true, ← fromEmpty]
        -- A leading dot is a step of its own, which leaves the empty text as it is.
        by_cases dot : (path.text.toList.splitOn '/').head? = some ['.']
        · rw [components_of_dot absolute dot]
          rfl
        · rw [components_of_relative absolute dot]
  unfold normalizeInPlace
  rw [built]
  by_cases empty : path.folded = []
  · rw [normalize_of_folded_nil empty, empty]
    rfl
  · rw [normalize_of_folded_ne empty,
      if_neg (mt path.isFolded_folded.text_written_eq_iff.1 empty)]

example : normalizeInPlace ⟨"./a//../../b/."⟩ = ⟨"../b"⟩ := by
  decide +kernel

/-! ## The normal form of a path -/

section NormalForm

variable (path : Path)

theorem isNormal_normalize : IsNormal path.normalize := by
  by_cases empty : path.folded = []
  · rw [normalize_of_folded_nil empty]
    exact .current
  · exact path.isFolded_folded.isNormal empty

theorem components_normalize :
    path.normalize.components =
      if path.folded = [] then [.current] else path.folded.reverse := by
  by_cases empty : path.folded = []
  · rw [normalize_of_folded_nil empty, if_pos empty]
    rfl
  · rw [normalize_of_folded_ne empty, if_neg empty, path.isFolded_folded.components_written]

/-- The steps left of a path are left of its normal form. -/
theorem folded_normalize : path.normalize.folded = path.folded := by
  have components := path.components_normalize
  unfold folded at components ⊢
  rw [components]
  by_cases empty : path.components.foldl takeStep [] = []
  · rw [if_pos empty, empty]
    rfl
  · rw [if_neg empty]
    exact path.isFolded_folded.foldl_reverse

theorem normalize_of_folded_eq {left right : Path} (same : left.folded = right.folded) :
    left.normalize = right.normalize :=
  congrArg (fun taken : List Component => ofComponents taken.reverse) same

theorem normalize_normalize : path.normalize.normalize = path.normalize :=
  normalize_of_folded_eq path.folded_normalize

/-- The normal form may stand for the path in front of any other one. -/
theorem normalize_join_normalize (tail : Path) :
    (path.normalize.join tail).normalize = (path.join tail).normalize := by
  cases absolute : tail.isAbsolute with
  | true => rw [join_of_isAbsolute _ absolute, join_of_isAbsolute _ absolute]
  | false =>
      apply normalize_of_folded_eq
      rw [folded_join _ absolute, folded_join _ absolute, folded_normalize]

theorem isAbsolute_normalize : path.normalize.isAbsolute = path.isAbsolute := by
  rw [← path.contains_root_folded]
  by_cases empty : path.folded = []
  · rw [normalize_of_folded_nil empty, empty]
    rfl
  · rw [normalize_of_folded_ne empty, written,
      isAbsolute_ofSegments _ path.isFolded_folded.solid_segmentsOf, Bool.not_not]

/-- Between the slashes of a normal form stand steps only, and one of them is its end. -/
theorem splitOn_normalize :
    path.normalize.text = "/" ∨ path.normalize.text = "." ∨
      path.normalize.text.toList.getLast? ≠ some '/' ∧
      ∃ segments, (∀ s ∈ segments, IsSolid s) ∧
        path.normalize.text.toList.splitOn '/' =
          if path.isAbsolute then [] :: segments else segments := by
  have solid := path.isFolded_folded.solid_segmentsOf
  by_cases empty : path.folded = []
  · rw [normalize_of_folded_nil empty]
    exact .inr (.inl rfl)
  · rw [normalize_of_folded_ne empty]
    by_cases root : path.folded = [.root]
    · rw [root]
      exact .inl rfl
    · have someSegment := path.isFolded_folded.segmentsOf_ne_nil empty root
      unfold written
      refine .inr (.inr ⟨?_, (segmentsOf path.folded).reverse, solid_reverse solid, ?_⟩)
      · obtain ⟨last, before, segments⟩ := List.exists_cons_of_ne_nil someSegment
        obtain ⟨front, text⟩ := exists_append_ofSegments (!path.folded.contains .root) last before
        rw [segments] at solid ⊢
        rw [text]
        exact (solid last List.mem_cons_self).getLast?_append_ne front
      · rw [splitOn_ofSegments _ solid someSegment, contains_root_folded]
        cases path.isAbsolute <;> rfl

/-- The normal form is what is left of the steps of the path, and it is canonical: in one of
three shapes, its own normal form, and as good as the path in front of any other one. -/
theorem normalize_canonical :
    IsNormal path.normalize ∧
      (path.normalize = normalizeInPlace path ∧
        path.normalize.components =
          if path.folded = [] then [.current] else path.folded.reverse) ∧
      (path.normalize.text = "/" ∨ path.normalize.text = "." ∨
        path.normalize.text.toList.getLast? ≠ some '/' ∧
        ∃ segments, (∀ s ∈ segments, IsSolid s) ∧
          path.normalize.text.toList.splitOn '/' =
            if path.isAbsolute then [] :: segments else segments) ∧
      path.normalize.normalize = path.normalize ∧
      ∀ tail, (path.normalize.join tail).normalize = (path.join tail).normalize :=
  ⟨path.isNormal_normalize, ⟨path.normalize_eq_normalizeInPlace, path.components_normalize⟩,
    path.splitOn_normalize, path.normalize_normalize, path.normalize_join_normalize⟩

end NormalForm

end VirtualBlocks.Path
