import VirtualBlocks.Proofs.Path.NormalForm
import VirtualBlocks.Proofs.Path.Segments

/-!
Contract: steps from which nothing can be taken back any more, and the path that they write.

Owns:
- folded steps: names on top of the root, or on top of steps up;
- that taking further steps keeps steps folded, and that folded steps are taken as they are;
- the path of folded steps, whose components are these steps;
- the steps that are taken on a path and on a joined path.

Does not own: the normal form of a path (`Proofs.Path.Canonical`).
-/

namespace VirtualBlocks.Path

/-! ## Folded steps -/

/-- Steps, the last one first, of which none takes back another one. -/
inductive IsFolded : List Component → Prop
  | belowRoot {names : List String} (areNames : ∀ name ∈ names, IsName name) :
      IsFolded (names.map .name ++ [.root])
  | upwards {names : List String} (areNames : ∀ name ∈ names, IsName name) (ups : Nat) :
      IsFolded (names.map .name ++ List.replicate ups .parent)

theorem isFolded_nil : IsFolded [] :=
  .upwards (List.forall_mem_nil _) 0

theorem isFolded_root : IsFolded [.root] :=
  .belowRoot (List.forall_mem_nil _)

namespace IsFolded

variable {taken : List Component}

theorem name (folded : IsFolded taken) {name : String} (isName : IsName name) :
    IsFolded (.name name :: taken) := by
  cases folded with
  | belowRoot areNames => exact .belowRoot (List.forall_mem_cons.2 ⟨isName, areNames⟩)
  | upwards areNames ups => exact .upwards (List.forall_mem_cons.2 ⟨isName, areNames⟩) ups

theorem parent (folded : IsFolded taken) : IsFolded (takeStep taken .parent) := by
  cases folded with
  | @belowRoot names areNames =>
      cases names with
      | nil => exact isFolded_root
      | cons last before => exact .belowRoot (List.forall_mem_cons.1 areNames).2
  | @upwards names areNames ups =>
      cases names with
      | nil =>
          cases ups with
          | zero => exact .upwards (List.forall_mem_nil _) 1
          | succ ups => exact .upwards (List.forall_mem_nil _) (ups + 2)
      | cons last before => exact .upwards (List.forall_mem_cons.1 areNames).2 ups

end IsFolded

theorem parent_or_name_of_mem_steps (text : List Char) :
    ∀ step ∈ steps text, step = .parent ∨ ∃ name, step = .name name ∧ IsName name := by
  intro step member
  rcases of_mem_steps member with isParent | ⟨name, isStep, isName, -⟩
  · exact .inl isParent
  · exact .inr ⟨name, isStep, isName⟩

/-- The steps of a text keep steps folded. -/
theorem isFolded_foldl_steps {taken : List Component} (folded : IsFolded taken)
    (text : List Char) : IsFolded ((steps text).foldl takeStep taken) := by
  apply List.foldlRecOn (steps text) takeStep folded
  intro taken folded step member
  rcases parent_or_name_of_mem_steps text step member with rfl | ⟨name, rfl, isName⟩
  · exact folded.parent
  · exact folded.name isName

theorem foldl_takeStep_parents (ups more : Nat) :
    (List.replicate more Component.parent).foldl takeStep (List.replicate ups .parent) =
      List.replicate (ups + more) .parent := by
  induction more generalizing ups with
  | zero => rfl
  | succ more inductionHypothesis =>
      have oneMore : takeStep (List.replicate ups .parent) .parent =
          List.replicate (ups + 1) .parent := by
        cases ups <;> rfl
      rw [List.replicate_succ, List.foldl_cons, oneMore, inductionHypothesis]
      congr 1
      omega

/-- Folded steps are taken as they are. -/
theorem IsFolded.foldl_reverse {taken : List Component} (folded : IsFolded taken) :
    taken.reverse.foldl takeStep [] = taken := by
  cases folded with
  | belowRoot areNames =>
      rw [List.reverse_append, ← List.map_reverse, List.foldl_append, foldl_takeStep_names,
        List.map_reverse, List.reverse_reverse]
      rfl
  | upwards areNames ups =>
      have parents := foldl_takeStep_parents 0 ups
      rw [Nat.zero_add] at parents
      rw [List.reverse_append, ← List.map_reverse, List.foldl_append, List.reverse_replicate,
        foldl_takeStep_names, List.map_reverse, List.reverse_reverse]
      exact congrArg _ parents

/-! ## The path of folded steps -/

/-- The segments that steps below the root or beside it are written as. -/
def segmentsOf (taken : List Component) : List (List Char) :=
  (taken.filter (· ≠ .root)).map (fun step => step.text.toList)

/-- The path that steps, the last one first, are written as; the empty text when there are
none. -/
def written (taken : List Component) : Path :=
  ofSegments (!taken.contains .root) (segmentsOf taken)

theorem written_cons {step : Component} (notRoot : step ≠ .root) (taken : List Component) :
    written (step :: taken) =
      ofSegments (!taken.contains .root) (step.text.toList :: segmentsOf taken) := by
  unfold written segmentsOf
  simp [notRoot, Ne.symm notRoot]

theorem segmentsOf_names (names : List String) (others : List Component) :
    segmentsOf (names.map .name ++ others) = names.map String.toList ++ segmentsOf others := by
  have kept : (names.map Component.name).filter (· ≠ .root) = names.map .name :=
    List.filter_eq_self.2 (by simp)
  unfold segmentsOf
  rw [List.filter_append, kept, List.map_append, List.map_map]
  rfl

theorem segmentsOf_parents (ups : Nat) :
    segmentsOf (List.replicate ups .parent) = List.replicate ups ['.', '.'] := by
  unfold segmentsOf
  simp [Component.text]

theorem toList_intercalate_text (all : List Component) :
    ("/".intercalate (all.map Component.text)).toList =
      ['/'].intercalate (all.map (fun step => step.text.toList)) := by
  rw [String.toList_intercalate, List.map_map]
  rfl

theorem ofComponents_root (below : List Component) :
    ofComponents (.root :: below) =
      ofSegments false (below.map (fun step => step.text.toList)).reverse := by
  have sameText : (ofComponents (.root :: below)).text.toList =
      (ofSegments false (below.map (fun step => step.text.toList)).reverse).text.toList := by
    rw [toList_ofSegments, if_neg Bool.false_ne_true, List.reverse_reverse]
    show ("/" ++ "/".intercalate (below.map Component.text)).toList = _
    rw [String.toList_append, toList_intercalate_text]
    rfl
  exact congrArg Path.mk (String.toList_inj.1 sameText)

theorem ofComponents_of_notMem {all : List Component} (nonempty : all ≠ [])
    (noRoot : .root ∉ all) : ofComponents all = ⟨"/".intercalate (all.map Component.text)⟩ := by
  unfold ofComponents
  split
  · contradiction
  · simp at noRoot
  · rfl

theorem ofComponents_relative {all : List Component} (nonempty : all ≠ [])
    (noRoot : .root ∉ all) :
    ofComponents all = ofSegments true (all.map (fun step => step.text.toList)).reverse := by
  rw [ofComponents_of_notMem nonempty noRoot]
  apply congrArg Path.mk
  apply String.toList_inj.1
  rw [toList_intercalate_text, List.reverse_reverse, String.toList_ofList]
  rfl

namespace IsFolded

variable {taken : List Component}

theorem solid_segmentsOf (folded : IsFolded taken) : ∀ s ∈ segmentsOf taken, IsSolid s := by
  cases folded with
  | @belowRoot names areNames =>
      rw [segmentsOf_names]
      show ∀ s ∈ names.map String.toList ++ [], IsSolid s
      rw [List.append_nil, List.forall_mem_map]
      exact fun name member => isSolid_of_isName (areNames name member)
  | upwards areNames ups =>
      rw [segmentsOf_names, segmentsOf_parents, List.forall_mem_append, List.forall_mem_map]
      refine ⟨fun name member => isSolid_of_isName (areNames name member), ?_⟩
      exact fun s member => (List.eq_of_mem_replicate member).symm ▸ isSolid_parent

/-- The components of the path are the steps that it is written for. -/
theorem components_written (folded : IsFolded taken) :
    (written taken).components = taken.reverse := by
  unfold written
  rw [components_ofSegments _ folded.solid_segmentsOf, List.filterMap_reverse]
  cases folded with
  | @belowRoot names areNames =>
      have segments : segmentsOf (names.map .name ++ [.root]) = names.map String.toList :=
        (segmentsOf_names names [.root]).trans (List.append_nil _)
      simp [segments, filterMap_names areNames]
  | upwards areNames ups =>
      have parents : (List.replicate ups ['.', '.']).filterMap Component.ofSegment? =
          List.replicate ups .parent := by
        simp [Component.ofSegment?]
      rw [segmentsOf_names, segmentsOf_parents, List.filterMap_append, filterMap_names areNames,
        parents]
      simp

/-- The normal form of steps that are folded already. -/
theorem ofComponents_reverse (folded : IsFolded taken) (nonempty : taken ≠ []) :
    ofComponents taken.reverse = written taken := by
  unfold written
  cases folded with
  | belowRoot areNames =>
      rw [List.reverse_append, List.reverse_singleton, List.singleton_append, ofComponents_root,
        segmentsOf_names]
      simp [segmentsOf, Function.comp_def, Component.text]
  | upwards areNames ups =>
      rw [ofComponents_relative (mt List.reverse_eq_nil_iff.1 nonempty) (by simp),
        segmentsOf_names, segmentsOf_parents]
      simp [Function.comp_def, Component.text]

end IsFolded

/-! ## The steps taken on a path -/

/-- The steps that are left of a path, the last one first. -/
def folded (path : Path) : List Component :=
  path.components.foldl takeStep []

theorem folded_eq (path : Path) :
    path.folded =
      (steps path.text.toList).foldl takeStep (if path.isAbsolute then [.root] else []) := by
  unfold folded
  cases absolute : path.isAbsolute with
  | true =>
      rw [components_of_isAbsolute absolute, if_pos rfl]
      rfl
  | false =>
      by_cases dot : (path.text.toList.splitOn '/').head? = some ['.']
      · rw [components_of_dot absolute dot, if_neg Bool.false_ne_true]
        rfl
      · rw [components_of_relative absolute dot, if_neg Bool.false_ne_true]

theorem isFolded_folded (path : Path) : IsFolded path.folded := by
  rw [folded_eq]
  cases path.isAbsolute with
  | true => exact isFolded_foldl_steps isFolded_root _
  | false => exact isFolded_foldl_steps isFolded_nil _

theorem contains_root_foldl (taken : List Component) (text : List Char) :
    ((steps text).foldl takeStep taken).contains .root = taken.contains .root := by
  refine List.foldlRecOn (motive := fun later => later.contains .root = taken.contains .root)
    (steps text) takeStep rfl ?_
  intro later same step member
  rw [← same]
  rcases parent_or_name_of_mem_steps text step member with rfl | ⟨name, rfl, -⟩
  · cases later with
    | nil => rfl
    | cons last before => cases last <;> simp [takeStep]
  · simp [takeStep]

theorem contains_root_folded (path : Path) : path.folded.contains .root = path.isAbsolute := by
  rw [folded_eq, contains_root_foldl]
  cases path.isAbsolute <;> rfl

theorem join_of_isAbsolute (base : Path) {tail : Path} (absolute : tail.isAbsolute = true) :
    base.join tail = tail :=
  if_pos absolute

theorem folded_join (base : Path) {tail : Path} (relative : tail.isAbsolute = false) :
    (base.join tail).folded = (steps tail.text.toList).foldl takeStep base.folded := by
  obtain ⟨sameStart, joinedSteps⟩ := steps_join base relative
  rw [folded_eq, folded_eq base, sameStart, joinedSteps, List.foldl_append]

theorem normalize_of_folded_nil {path : Path} (empty : path.folded = []) :
    path.normalize = ⟨"."⟩ := by
  show ofComponents path.folded.reverse = _
  rw [empty]
  rfl

theorem normalize_of_folded_ne {path : Path} (nonempty : path.folded ≠ []) :
    path.normalize = written path.folded :=
  path.isFolded_folded.ofComponents_reverse nonempty

end VirtualBlocks.Path
