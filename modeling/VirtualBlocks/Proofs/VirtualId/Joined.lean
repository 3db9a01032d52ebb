import VirtualBlocks.Proofs.VirtualId.Resolved

/-!
Contract: the ids of blocks as names next to their file.

Owns:
- the path of a name seen from a file: it ends in the name, names the file itself
  when the name is that of the file, and has no characters but those of the two;
- that the id of a block, seen from the folder of an absolute component file,
  leads to the file and to the address.

Does not own: the normal form of such a path (`Proofs.VirtualId.Resolved`). Here
steps up in the path of the file are allowed, and stay as they are.
-/

namespace VirtualBlocks

namespace Path

/-- A character that is no slash and no dot stands in a name of the path. -/
theorem exists_name_of_mem {text : List Char} {c : Char} (noSlash : c ≠ '/') (noDot : c ≠ '.')
    (member : c ∈ text) : ∃ name, .name name ∈ steps text ∧ c ∈ name.toList := by
  have inSegment : ∃ segment ∈ text.splitOn '/', c ∈ segment := by
    have somewhere : ¬ ∀ segment ∈ text.splitOn '/', c ∉ segment := by
      intro nowhere
      have outside := Text.notMem_intercalate noSlash nowhere
      rw [List.intercalate_splitOn] at outside
      exact outside member
    simpa using somewhere
  obtain ⟨segment, isSegment, inside⟩ := inSegment
  have isStep : Component.ofSegment? segment = some (.name (String.ofList segment)) := by
    unfold Component.ofSegment?
    split
    · contradiction
    · exact absurd (List.mem_singleton.1 inside) noDot
    · simp [noDot] at inside
    · rfl
  refine ⟨String.ofList segment, List.mem_filterMap.2 ⟨segment, isSegment, isStep⟩, ?_⟩
  rw [String.toList_ofList]
  exact inside

section Neighbour

variable {file : Path} {folder : List Char} {base : String}
  (absolute : file.isAbsolute = true) (isName : IsName base)
  (whole : file.text.toList = folder ++ '/' :: base.toList)
include absolute isName whole

theorem notMem_directory {c : Char} (noSlash : c ≠ '/') (noDot : c ≠ '.')
    (outside : c ∉ folder) : c ∉ file.directory.text.toList := by
  intro member
  obtain ⟨name, isStep, inName⟩ := exists_name_of_mem noSlash noDot member
  rw [(steps_directory absolute isName whole).2] at isStep
  rcases of_mem_steps isStep with isParent | ⟨other, same, -, within⟩
  · cases isParent
  · cases same
    exact outside (within c inName)

/-- The file is the neighbour of itself. -/
theorem sameFile_join_base : (file.directory.join ⟨base⟩).SameFile file := by
  obtain ⟨directoryAbsolute, directorySteps⟩ := steps_directory absolute isName whole
  obtain ⟨joinedAbsolute, joinedSteps⟩ :=
    steps_join file.directory (isAbsolute_of_isName isName)
  unfold SameFile
  rw [components_of_isAbsolute (joinedAbsolute.trans directoryAbsolute),
    components_of_isAbsolute absolute, joinedSteps, directorySteps, whole, steps_append_cons]

end Neighbour

/-- Relative paths seen from one directory have the same text before them, that of the
directory and a slash at most. -/
theorem exists_front (directory : Path) :
    ∃ front, (∀ c ∈ front, c ∈ directory.text.toList ∨ c = '/') ∧
      ∀ tail : Path, tail.isAbsolute = false →
        (directory.join tail).text.toList = front ++ tail.text.toList := by
  unfold join
  cases last : directory.text.toList.getLast? with
  | none =>
      refine ⟨[], List.forall_mem_nil _, fun tail relative => ?_⟩
      rw [relative]
      rfl
  | some c =>
      by_cases slash : c = '/'
      · subst slash
        refine ⟨directory.text.toList, fun c member => .inl member, fun tail relative => ?_⟩
        rw [relative]
        exact String.toList_append
      · refine ⟨directory.text.toList ++ ['/'], ?_, fun tail relative => ?_⟩
        · simp
        · rw [relative]
          simp

end Path

namespace VirtualId

open VirtualBlocks.Path

/-- The id of a block, seen from the folder of its file, leads to the file and to the
address. -/
theorem request?_joined {file : Path} (absolute : file.isAbsolute = true)
    (extended : extension <:+ file.text.toList) (noMark : '?' ∉ file.text.toList)
    (noBackslash : '\\' ∉ file.text.toList) {languages : Languages} {kind : BlockKind}
    {index : Option Nat} {lang : String} {address : Address}
    (unspelled : ¬ extension <:+: '.' :: lang.toList)
    (readable : Address.ofText? languages (Address.toText kind index lang) = some address) :
    ∃ owner : Path, owner.SameFile file ∧
      request? languages (file.directory.join ⟨write file kind index lang⟩).text =
        some { file := owner, address } := by
  obtain ⟨folder, base, whole, isName, baseExtended⟩ := exists_base_of_extended absolute extended
  obtain ⟨front, within, joined⟩ := exists_front file.directory
  have id : (write file kind index lang).toList =
      base.toList ++ '?' :: blockQuery file kind index lang :=
    toList_write_of_plain (by simpa using isName.nonempty) isName.single noMark noBackslash whole
      kind index lang
  have relative := isAbsolute_of_isName
    (isName_write_of_extended noMark noBackslash isName baseExtended whole kind index lang)
  let owner := file.directory.join ⟨base⟩
  have ownerText : owner.text.toList = front ++ base.toList :=
    joined ⟨base⟩ (isAbsolute_of_isName isName)
  have text : (file.directory.join ⟨write file kind index lang⟩).text =
      String.ofList (owner.text.toList ++ '?' :: blockQuery file kind index lang) := by
    apply String.toList_inj.1
    rw [String.toList_ofList, joined _ relative, id, ownerText, List.append_assoc]
  have noMarkInFolder : '?' ∉ folder ∧ '?' ∉ base.toList := by
    rw [whole, List.mem_append, not_or, List.mem_cons, not_or] at noMark
    exact ⟨noMark.1, noMark.2.2⟩
  have noMarkInOwner : '?' ∉ owner.text.toList := by
    rw [ownerText, List.mem_append, not_or]
    refine ⟨fun inFront => ?_, noMarkInFolder.2⟩
    rcases within '?' inFront with inDirectory | slash
    · exact notMem_directory absolute isName whole (by decide) (by decide) noMarkInFolder.1
        inDirectory
    · exact absurd slash (by decide)
  have ownerExtended : extension <:+ owner.text.toList := by
    rw [ownerText]
    exact baseExtended.trans (List.suffix_append _ _)
  refine ⟨owner, sameFile_join_base absolute isName whole, ?_⟩
  have found := request?_of_extended_name languages noMark noMarkInOwner ownerExtended unspelled
    readable
  rw [String.ofList_toList] at found
  rw [text]
  exact found

end VirtualId

end VirtualBlocks
