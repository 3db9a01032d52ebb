import VirtualBlocks.Proofs.Path.Components
import VirtualBlocks.Proofs.Text.Occurrence

/-!
Contract: absolute paths without steps up, their normal form and their folder.

Owns:
- the path of a list of names below the root;
- that a path whose steps are names has this path as its normal form, which
  names the same file;
- the steps of a joined path and of the folder of a path;
- what putting a text behind the last name does to the normal form.

Does not own: relative paths and steps up.
-/

namespace VirtualBlocks.Path

/-! ## Names below the root -/

/-- The path of names below the root. -/
def ofNames (names : List String) : Path :=
  ⟨"/" ++ "/".intercalate names⟩

theorem foldl_takeStep_names (names : List String) (taken : List Component) :
    (names.map Component.name).foldl takeStep taken =
      (names.map Component.name).reverse ++ taken := by
  induction names generalizing taken with
  | nil => rfl
  | cons name rest inductionHypothesis =>
      rw [List.map_cons, List.foldl_cons, inductionHypothesis, List.reverse_cons,
        List.append_assoc]
      rfl

theorem ofComponents_names (names : List String) :
    ofComponents (.root :: names.map .name) = ofNames names := by
  have texts : (names.map Component.name).map Component.text = names := by
    rw [List.map_map]
    exact List.map_id names
  show (⟨"/" ++ "/".intercalate ((names.map Component.name).map Component.text)⟩ : Path) = _
  rw [texts]
  rfl

theorem normalize_of_names {path : Path} {names : List String}
    (named : path.components = .root :: names.map .name) : path.normalize = ofNames names := by
  unfold normalize
  rw [named, List.foldl_cons, foldl_takeStep_names, List.reverse_append, List.reverse_reverse]
  exact ofComponents_names names

theorem toList_ofNames (names : List String) :
    (ofNames names).text.toList = '/' :: ['/'].intercalate (names.map String.toList) := by
  unfold ofNames
  rw [String.toList_append, String.toList_intercalate]
  rfl

theorem notMem_ofNames {c : Char} (other : c ≠ '/') {names : List String}
    (outside : ∀ name ∈ names, c ∉ name.toList) : c ∉ (ofNames names).text.toList := by
  rw [toList_ofNames, List.mem_cons, not_or]
  refine ⟨other, Text.notMem_intercalate other ?_⟩
  intro part member
  obtain ⟨name, inNames, rfl⟩ := List.mem_map.1 member
  exact outside name inNames

theorem isAbsolute_ofNames (names : List String) : (ofNames names).isAbsolute = true := by
  unfold isAbsolute
  rw [toList_ofNames]
  rfl

theorem filterMap_names {names : List String} (areNames : ∀ name ∈ names, IsName name) :
    (names.map String.toList).filterMap Component.ofSegment? = names.map .name := by
  induction names with
  | nil => rfl
  | cons name rest inductionHypothesis =>
      have restNamed := inductionHypothesis
        (fun other member => areNames other (List.mem_cons_of_mem _ member))
      rw [List.map_cons, List.map_cons, List.filterMap_cons,
        ofSegment?_of_isName (areNames name List.mem_cons_self), restNamed]

theorem components_ofNames {names : List String} (areNames : ∀ name ∈ names, IsName name) :
    (ofNames names).components = .root :: names.map .name := by
  have single : ∀ segment ∈ names.map String.toList, '/' ∉ segment := by
    intro segment member
    obtain ⟨name, inNames, rfl⟩ := List.mem_map.1 member
    exact (areNames name inNames).single
  rw [components_of_isAbsolute (isAbsolute_ofNames names), toList_ofNames, steps_cons,
    steps_intercalate _ single, filterMap_names areNames]

/-- Text behind the last name stands behind the whole path. -/
theorem text_ofNames_concat (names : List String) (last suffix : String) :
    (ofNames (names ++ [last ++ suffix])).text = (ofNames (names ++ [last])).text ++ suffix := by
  unfold ofNames
  cases names with
  | nil => simp only [List.nil_append, String.intercalate_singleton, String.append_assoc]
  | cons first others =>
      rw [String.intercalate_append_of_ne_nil (List.cons_ne_nil _ _) (List.cons_ne_nil _ _),
        String.intercalate_append_of_ne_nil (List.cons_ne_nil _ _) (List.cons_ne_nil _ _)]
      simp only [String.intercalate_singleton, String.append_assoc]

/-! ## Folders and joined paths -/

theorem filterMap_dropIdle (segments : List (List Char)) :
    (dropIdle false segments).reverse.filterMap Component.ofSegment? =
      segments.reverse.filterMap Component.ofSegment? := by
  induction segments with
  | nil => rfl
  | cons segment before inductionHypothesis =>
      unfold dropIdle
      split
      · rfl
      · rename_i idle
        have noStep : Component.ofSegment? segment = none := by
          unfold isStep at idle
          split at idle
          · rfl
          · rfl
          · exact absurd rfl idle
        rw [inductionHypothesis, List.reverse_cons, List.filterMap_append]
        simp [noStep]

theorem mem_of_mem_dropIdle {segment : List Char} {segments : List (List Char)}
    (member : segment ∈ dropIdle false segments) : segment ∈ segments := by
  induction segments with
  | nil => exact member
  | cons first before inductionHypothesis =>
      unfold dropIdle at member
      split at member
      · exact member
      · exact List.mem_cons_of_mem _ (inductionHypothesis member)

/-- The folder of an absolute path consists of the steps before its last name. -/
theorem steps_directory {path : Path} {folder : List Char} {base : String}
    (absolute : path.isAbsolute = true) (isName : IsName base)
    (text : path.text.toList = folder ++ '/' :: base.toList) :
    path.directory.isAbsolute = true ∧ steps path.directory.text.toList = steps folder := by
  obtain ⟨rest, starts⟩ := List.head?_eq_some_iff.1 (eq_of_beq absolute)
  have division : ∃ front, rest.splitOn '/' = front ++ [base.toList] ∧
      front.filterMap Component.ofSegment? = steps folder := by
    rw [text] at starts
    cases folder with
    | nil =>
        rw [List.nil_append, List.cons.injEq] at starts
        exact ⟨[], by rw [← starts.2, List.splitOn_eq_singleton isName.single]; rfl, rfl⟩
    | cons c inner =>
        rw [List.cons_append, List.cons.injEq] at starts
        refine ⟨inner.splitOn '/', ?_, ?_⟩
        · rw [← starts.2, List.splitOn_append_cons_self,
            List.splitOn_eq_singleton isName.single]
        · rw [starts.1, steps_cons]
          rfl
  obtain ⟨front, split, stepsBefore⟩ := division
  have baseIsStep (before : List (List Char)) : isStep false before base.toList = true := by
    unfold isStep
    split
    · rename_i empty
      exact absurd (String.toList_inj.1 empty) isName.nonempty
    · rename_i current
      exact absurd (String.toList_inj.1 current) isName.notCurrent
    · rfl
  have isDirectory : path.directory = ofSegments false (dropIdle false front.reverse) := by
    have parent : path.parent? = some (ofSegments false (dropIdle false front.reverse)) := by
      unfold parent? parents
      rw [starts]
      show ((shortened false (rest.splitOn '/').reverse).map (ofSegments false)).head? = _
      rw [split, List.reverse_append, List.reverse_singleton, List.singleton_append, shortened,
        if_pos (baseIsStep _)]
      rfl
    have notEmpty : (ofSegments false (dropIdle false front.reverse)).text ≠ "" := by
      simp [ofSegments]
    unfold directory
    rw [parent]
    exact if_neg notEmpty
  have directoryText : path.directory.text.toList =
      '/' :: ['/'].intercalate (dropIdle false front.reverse).reverse := by
    rw [isDirectory]
    exact String.toList_ofList
  have single : ∀ segment ∈ (dropIdle false front.reverse).reverse, '/' ∉ segment := by
    intro segment member
    have inFront := List.mem_reverse.1 (mem_of_mem_dropIdle (List.mem_reverse.1 member))
    exact (of_mem_splitOn (split ▸ List.mem_append_left _ inFront)).1
  refine ⟨?_, ?_⟩
  · unfold isAbsolute
    rw [directoryText]
    rfl
  · rw [directoryText, steps_cons, steps_intercalate _ single, filterMap_dropIdle,
      List.reverse_reverse, stepsBefore]

theorem isAbsolute_of_isName {name : String} (isName : IsName name) :
    (⟨name⟩ : Path).isAbsolute = false := by
  unfold isAbsolute
  cases characters : name.toList with
  | nil => rfl
  | cons c rest =>
      have notSlash : c ≠ '/' := fun slash =>
        isName.single (characters ▸ slash ▸ List.mem_cons_self)
      simpa [characters] using notSlash

/-- A relative path seen from another one takes its steps behind those of that one. -/
theorem steps_join (base : Path) {tail : Path} (relative : tail.isAbsolute = false) :
    (base.join tail).isAbsolute = base.isAbsolute ∧
      steps (base.join tail).text.toList =
        steps base.text.toList ++ steps tail.text.toList := by
  have sameStart (behind : List Char) (nonempty : base.text.toList ≠ []) :
      (base.text.toList ++ behind).head? = base.text.toList.head? := by
    obtain ⟨first, rest, text⟩ := List.exists_cons_of_ne_nil nonempty
    rw [text]
    rfl
  unfold join
  rw [relative, if_neg Bool.false_ne_true]
  split
  · rename_i empty
    have noText := List.getLast?_eq_none_iff.1 empty
    refine ⟨?_, by rw [noText, steps_nil, List.nil_append]⟩
    rw [relative]
    unfold isAbsolute
    rw [noText]
    rfl
  · rename_i slash
    obtain ⟨front, text⟩ := List.getLast?_eq_some_iff.1 slash
    refine ⟨?_, ?_⟩
    · unfold isAbsolute
      rw [String.toList_append, sameStart _ (by simp [text])]
    · rw [String.toList_append, text, List.append_assoc, List.singleton_append,
        steps_append_cons, steps_append_cons, steps_nil, List.append_nil]
  · rename_i last
    refine ⟨?_, ?_⟩
    · unfold isAbsolute
      rw [String.toList_append, String.toList_append, List.append_assoc,
        sameStart _ (fun empty => by simp [empty] at last)]
    · rw [String.toList_append, String.toList_append, List.append_assoc]
      exact steps_append_cons base.text.toList tail.text.toList

/-! ## A file and its neighbours -/

/-- A file below the root is the name at its end in a folder of names, and a name
seen from the file stands in the same folder. -/
theorem exists_folder_names {path : Path} {folder : List Char} {base : String}
    (absolute : path.isAbsolute = true) (noParent : .parent ∉ path.components)
    (isName : IsName base) (text : path.text.toList = folder ++ '/' :: base.toList) :
    ∃ names : List String, (∀ name ∈ names, IsName name ∧ ∀ c ∈ name.toList, c ∈ folder) ∧
      path.components = .root :: (names ++ [base]).map .name ∧
      ∀ other, IsName other →
        (path.directory.join ⟨other⟩).normalize = ofNames (names ++ [other]) := by
  have components := components_of_isAbsolute absolute
  rw [text, steps_append_cons, steps_of_isName isName] at components
  have noParentInFolder : .parent ∉ steps folder := by
    intro member
    rw [components] at noParent
    exact noParent (List.mem_cons_of_mem _ (List.mem_append_left _ member))
  obtain ⟨names, folderNames, areNames⟩ := exists_names_of_steps noParentInFolder
  obtain ⟨directoryAbsolute, directorySteps⟩ := steps_directory absolute isName text
  rw [folderNames] at components directorySteps
  refine ⟨names, areNames, ?_, ?_⟩
  · rw [components, List.map_append]
    rfl
  · intro other otherIsName
    obtain ⟨joinedAbsolute, joinedSteps⟩ :=
      steps_join path.directory (isAbsolute_of_isName otherIsName)
    have joinedComponents := components_of_isAbsolute (joinedAbsolute.trans directoryAbsolute)
    rw [joinedSteps, directorySteps, steps_of_isName otherIsName, ← List.map_singleton,
      ← List.map_append] at joinedComponents
    exact normalize_of_names joinedComponents

end VirtualBlocks.Path
