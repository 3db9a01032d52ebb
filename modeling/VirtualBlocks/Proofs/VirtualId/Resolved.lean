import VirtualBlocks.Proofs.Path.NormalForm
import VirtualBlocks.Proofs.VirtualId.Owner

/-!
Contract: the ids of the blocks of a component file below the root.

Owns:
- the files whose block ids can be traced back to them: absolute, without steps
  up, question marks and backslashes, and in the lower-case extension;
- the id of a block as a name next to its file, and the id it is resolved to:
  the normal form of the file with the query of the id behind it;
- that both carry the address, and that the resolved one leads to the file.

Does not own: what the store holds for the file.
-/

namespace VirtualBlocks.VirtualId

open VirtualBlocks.Path

/-- The files whose block ids can be traced back to them. -/
structure IsTraceable (file : Path) : Prop where
  absolute : file.isAbsolute = true
  noParent : .parent ∉ file.components
  extended : extension <:+ file.text.toList
  noMark : '?' ∉ file.text.toList
  noBackslash : '\\' ∉ file.text.toList

/-- The id that the id of a block is resolved to. -/
def resolved (file : Path) (kind : BlockKind) (index : Option Nat) (lang : String) : String :=
  file.normalize.text ++ "?" ++ String.ofList (blockQuery file kind index lang)

variable {file : Path}

/-- The base name of an absolute file in the extension of components is a name in that
extension. -/
theorem exists_base_of_extended (absolute : file.isAbsolute = true)
    (extended : extension <:+ file.text.toList) :
    ∃ (folder : List Char) (base : String), file.text.toList = folder ++ '/' :: base.toList ∧
      IsName base ∧ extension <:+ base.toList := by
  have slash : '/' ∈ file.text.toList :=
    List.mem_of_mem_head? (Option.mem_def.2 (eq_of_beq absolute))
  obtain ⟨reversedBase, reversedFolder, reversed, single⟩ :=
    List.eq_append_cons_of_mem (List.mem_reverse.2 slash)
  have whole : file.text.toList = reversedFolder.reverse ++ '/' :: reversedBase.reverse := by
    have again := congrArg List.reverse reversed
    rw [List.reverse_reverse, List.reverse_append, List.reverse_cons, List.append_assoc] at again
    exact again
  have baseExtended : extension <:+ reversedBase.reverse := by
    rw [whole] at extended
    have baseEnds : '/' :: reversedBase.reverse <:+
        reversedFolder.reverse ++ '/' :: reversedBase.reverse := List.suffix_append _ _
    rcases List.suffix_or_suffix_of_suffix extended baseEnds with inBase | beyond
    · rcases List.suffix_cons_iff.1 inBase with same | inside
      · exact absurd (List.cons.inj same).1 (by decide)
      · exact inside
    · exact absurd (beyond.subset List.mem_cons_self) (by decide)
  have long : 4 ≤ reversedBase.reverse.length := baseExtended.length_le
  refine ⟨reversedFolder.reverse, String.ofList reversedBase.reverse, ?_, ?_, ?_⟩
  · rw [String.toList_ofList]
    exact whole
  · refine isName_of_length ?_ ?_
    · rw [String.toList_ofList, List.mem_reverse]
      exact single
    · rw [String.toList_ofList]
      omega
  · rw [String.toList_ofList]
    exact baseExtended

/-- The id of a block of a component file is a name. -/
theorem isName_write_of_extended {folder : List Char} {base : String}
    (noMark : '?' ∉ file.text.toList) (noBackslash : '\\' ∉ file.text.toList)
    (isName : IsName base) (extended : extension <:+ base.toList)
    (whole : file.text.toList = folder ++ '/' :: base.toList)
    (kind : BlockKind) (index : Option Nat) (lang : String) :
    IsName (write file kind index lang) := by
  have text := toList_write_of_plain (by simpa using isName.nonempty) isName.single noMark
    noBackslash whole kind index lang
  have long : 4 ≤ base.toList.length := extended.length_le
  refine isName_of_length ?_ ?_
  · rw [text, List.mem_append, List.mem_cons, not_or, not_or]
    exact ⟨isName.single, by decide, Uri.Query.notMem_toText (by decide) _⟩
  · rw [text, List.length_append]
    omega

namespace IsTraceable

/-- The base name of a file is a name in the extension of components. -/
theorem exists_base (traceable : IsTraceable file) :
    ∃ (folder : List Char) (base : String), file.text.toList = folder ++ '/' :: base.toList ∧
      IsName base ∧ extension <:+ base.toList :=
  exists_base_of_extended traceable.absolute traceable.extended

/-- A file is a name in a folder of names, its normal form is the path of these
names, and so is that of a name seen from the file. -/
theorem exists_names (traceable : IsTraceable file) :
    ∃ (folder : List Char) (base : String) (names : List String),
      file.text.toList = folder ++ '/' :: base.toList ∧ IsName base ∧
      extension <:+ base.toList ∧ (∀ name ∈ names ++ [base], IsName name ∧ '?' ∉ name.toList) ∧
      file.components = .root :: (names ++ [base]).map .name ∧
      ∀ other, IsName other →
        (file.directory.join ⟨other⟩).normalize = ofNames (names ++ [other]) := by
  obtain ⟨folder, base, whole, isName, extended⟩ := traceable.exists_base
  obtain ⟨names, areNames, components, neighbours⟩ :=
    exists_folder_names traceable.absolute traceable.noParent isName whole
  have noMark := traceable.noMark
  rw [whole, List.mem_append, not_or, List.mem_cons, not_or] at noMark
  refine ⟨folder, base, names, whole, isName, extended, ?_, components, neighbours⟩
  intro name member
  rcases List.mem_append.1 member with inFolder | isBase
  · obtain ⟨folderName, within⟩ := areNames name inFolder
    exact ⟨folderName, fun mark => noMark.1 (within '?' mark)⟩
  · rw [List.mem_singleton.1 isBase]
    exact ⟨isName, noMark.2.2⟩

/-! ## The normal form of the file -/

theorem sameFile_normalize (traceable : IsTraceable file) : file.normalize.SameFile file := by
  obtain ⟨folder, base, names, -, -, -, areNames, components, -⟩ := traceable.exists_names
  unfold SameFile
  rw [normalize_of_names components, components,
    components_ofNames (fun name member => (areNames name member).1)]

theorem noMark_normalize (traceable : IsTraceable file) :
    '?' ∉ file.normalize.text.toList := by
  obtain ⟨folder, base, names, -, -, -, areNames, components, -⟩ := traceable.exists_names
  rw [normalize_of_names components]
  exact notMem_ofNames (by decide) (fun name member => (areNames name member).2)

theorem extended_normalize (traceable : IsTraceable file) :
    extension <:+ file.normalize.text.toList := by
  obtain ⟨folder, base, names, -, -, extended, -, components, -⟩ := traceable.exists_names
  have behindFolder := text_ofNames_concat names "" base
  rw [String.empty_append] at behindFolder
  rw [normalize_of_names components, behindFolder, String.toList_append]
  exact extended.trans (List.suffix_append _ _)

/-! ## The ids of its blocks -/

variable (kind : BlockKind) (index : Option Nat) (lang : String)

theorem toList_write (traceable : IsTraceable file) {folder : List Char} {base : String}
    (isName : IsName base) (whole : file.text.toList = folder ++ '/' :: base.toList) :
    (write file kind index lang).toList = base.toList ++ '?' :: blockQuery file kind index lang :=
  toList_write_of_plain (by simpa using isName.nonempty) isName.single traceable.noMark
    traceable.noBackslash whole kind index lang

/-- The id of a block is a name next to the file. -/
theorem isName_write (traceable : IsTraceable file) :
    IsName (write file kind index lang) := by
  obtain ⟨folder, base, whole, isName, extended⟩ := traceable.exists_base
  exact isName_write_of_extended traceable.noMark traceable.noBackslash isName extended whole
    kind index lang

theorem normalize_join_write (traceable : IsTraceable file) :
    (file.directory.join ⟨write file kind index lang⟩).normalize =
      ⟨resolved file kind index lang⟩ := by
  obtain ⟨folder, base, names, whole, isName, -, -, components, neighbours⟩ :=
    traceable.exists_names
  have text : write file kind index lang =
      base ++ ("?" ++ String.ofList (blockQuery file kind index lang)) := by
    apply String.toList_inj.1
    rw [traceable.toList_write kind index lang isName whole]
    simp
  rw [neighbours _ (traceable.isName_write kind index lang), text]
  apply congrArg Path.mk
  unfold resolved
  rw [normalize_of_names components, String.append_assoc]
  exact text_ofNames_concat names base _

theorem query?_write (traceable : IsTraceable file) :
    query? (write file kind index lang).toList = some (blockQuery file kind index lang) := by
  obtain ⟨folder, base, whole, isName, extended⟩ := traceable.exists_base
  have noMark := traceable.noMark
  rw [whole, List.mem_append, not_or, List.mem_cons, not_or] at noMark
  rw [traceable.toList_write kind index lang isName whole]
  exact query?_append_cons noMark.2.2 (endsInExtension_of_suffix extended)
    (isQuery_blockQuery file kind index lang)

variable {kind index lang}

theorem address?_write (traceable : IsTraceable file) {languages : Languages} {address : Address}
    (readable : Address.ofText? languages (Address.toText kind index lang) = some address) :
    address? languages (write file kind index lang) = some address :=
  (address?_of_blockQuery (traceable.query?_write kind index lang)).trans readable

/-- The resolved id leads back to the file. -/
theorem request?_resolved (traceable : IsTraceable file) {languages : Languages}
    {address : Address} (unspelled : ¬ extension <:+: '.' :: lang.toList)
    (readable : Address.ofText? languages (Address.toText kind index lang) = some address) :
    request? languages (resolved file kind index lang) =
      some { file := file.normalize, address } := by
  have text : resolved file kind index lang =
      String.ofList (file.normalize.text.toList ++ '?' :: blockQuery file kind index lang) := by
    apply String.toList_inj.1
    unfold resolved
    simp
  have found := request?_of_extended_name languages traceable.noMark traceable.noMark_normalize
    traceable.extended_normalize unspelled readable
  rw [String.ofList_toList] at found
  rw [text]
  exact found

end IsTraceable

end VirtualBlocks.VirtualId
