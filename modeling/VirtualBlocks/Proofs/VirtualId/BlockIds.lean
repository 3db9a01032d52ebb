import VirtualBlocks.Proofs.Markup.Layout
import VirtualBlocks.Proofs.VirtualId.RoundTrip

/-!
Contract: the ids of the blocks of a component, as its source declares them.

Owns:
- the kind and the position that each block of a descriptor is addressed by;
- the languages of blocks: a custom block that is read always has one, and any
  other block has the declared one or a default that reads back;
- the exact condition on the declared language under which the id of a block reads
  back as its address.

Does not own: ids of a kind, a position and a language in general
(`Proofs.VirtualId.RoundTrip`).
-/

namespace VirtualBlocks

/-! ## The blocks of a descriptor -/

/-- The blocks of a descriptor with the kind and the position that address them: a
template and a script have no position, styles and custom blocks have theirs. -/
inductive Descriptor.Addresses (descriptor : Descriptor) : BlockKind → Option Nat → Block → Prop
  | template {block : Block} (present : descriptor.template = some block) :
      Addresses descriptor .template none block
  | script {block : Block} (present : descriptor.script = some block) :
      Addresses descriptor .script none block
  | style {position : Nat} {block : Block} (present : descriptor.styles[position]? = some block) :
      Addresses descriptor .styles (some position) block
  | custom {position : Nat} {block : Block}
      (present : descriptor.customBlocks[position]? = some block) :
      Addresses descriptor .customBlocks (some position) block

section Addresses

variable {descriptor : Descriptor} {kind : BlockKind} {index : Option Nat} {block : Block}

/-- These are the blocks that can be selected, where a position is given to lists
only. -/
theorem Descriptor.addresses_iff :
    descriptor.Addresses kind index block ↔
      descriptor.select? kind index = some block ∧ index.isSome = kind.isList := by
  constructor
  · intro addressed
    cases addressed with
    | template present => exact ⟨present, rfl⟩
    | script present => exact ⟨present, rfl⟩
    | style present => exact ⟨present, rfl⟩
    | custom present => exact ⟨present, rfl⟩
  · intro ⟨selected, positioned⟩
    cases kind with
    | template =>
        obtain rfl := Option.isNone_iff_eq_none.1 (Option.isSome_eq_false_iff.1 positioned)
        exact .template selected
    | script =>
        obtain rfl := Option.isNone_iff_eq_none.1 (Option.isSome_eq_false_iff.1 positioned)
        exact .script selected
    | styles =>
        obtain ⟨position, rfl⟩ := Option.isSome_iff_exists.1 positioned
        exact .style selected
    | customBlocks =>
        obtain ⟨position, rfl⟩ := Option.isSome_iff_exists.1 positioned
        exact .custom selected

theorem Descriptor.Addresses.mem_blocks (addressed : descriptor.Addresses kind index block) :
    block ∈ descriptor.blocks := by
  unfold Descriptor.blocks
  simp only [List.mem_append, Option.mem_toList]
  cases addressed with
  | template present => exact .inl (.inl (.inl present))
  | script present => exact .inl (.inl (.inr present))
  | style present => exact .inl (.inr (List.mem_of_getElem? present))
  | custom present => exact .inr (List.mem_of_getElem? present)

end Addresses

theorem Descriptor.tag_ne_empty_of_mem_blocks {options : ParseOptions} {file : Path}
    {source : String} {descriptor : Descriptor} {block : Block}
    (parsed : ofSource options file source = .ok descriptor)
    (member : block ∈ descriptor.blocks) : block.tag ≠ "" := by
  obtain ⟨element, inSource, rfl⟩ := exists_element_of_mem_blocks options file source parsed member
  have isName := Markup.isTagName_of_mem_readElements inSource
  rw [element.tag_mappedBlock options file source]
  intro empty
  rw [empty] at isName
  exact isName.ne_nil rfl

/-! ## The languages of blocks -/

namespace Languages

theorem Filled.forCustomBlock_ne_empty {languages : Languages} (filled : languages.Filled)
    {block : Block} (tagged : block.tag ≠ "") : languages.forCustomBlock block ≠ "" := by
  unfold forCustomBlock
  cases declared : (block.attributeText? "lang").filter (fun lang => lang ≠ "") with
  | some lang =>
      have nonempty := (Option.filter_eq_some_iff.1 declared).2
      simpa using nonempty
  | none =>
      cases found : languages.get? block.tag with
      | none => exact tagged
      | some lang => exact filled block.tag lang found

/-- Whether a language reads back behind a kind: it is not empty, and does not start
with a segment that reads as a position where none stands. -/
def ReadsBack (kind : BlockKind) (lang : String) : Prop :=
  lang ≠ "" ∧
    (kind.isList = true ∨ Address.isIndex (Address.leadingSegment lang.toList) = false)

instance (kind : BlockKind) (lang : String) : Decidable (ReadsBack kind lang) :=
  inferInstanceAs (Decidable (_ ∧ _))

/-- The built-in defaults read back, so only a declared language may not. -/
theorem readsBack_forKind_builtin_iff (kind : BlockKind) (declared : Option String) :
    ReadsBack kind (builtin.forKind kind declared) ↔
      ∀ lang ∈ declared, ReadsBack kind lang := by
  cases declared with
  | some lang => simp [forKind]
  | none =>
      have default : ReadsBack kind (builtin.forKind kind none) := by
        cases kind <;> decide +kernel
      simp [default]

theorem readsBack_forBlock_builtin_iff {kind : BlockKind} {block : Block}
    (tagged : block.tag ≠ "") :
    ReadsBack kind (builtin.forBlock kind block) ↔
      kind = .customBlocks ∨ ∀ lang ∈ block.lang, ReadsBack kind lang := by
  cases kind with
  | customBlocks =>
      have nonempty := filled_builtin.forCustomBlock_ne_empty tagged
      exact iff_of_true ⟨nonempty, .inl rfl⟩ (.inl rfl)
  | template =>
      apply (readsBack_forKind_builtin_iff .template block.lang).trans
      simp
  | script =>
      apply (readsBack_forKind_builtin_iff .script block.lang).trans
      simp
  | styles =>
      apply (readsBack_forKind_builtin_iff .styles block.lang).trans
      simp

end Languages

/-! ## The ids of blocks -/

namespace VirtualId

/-- The id of a block of a component that is read gives back the address of the block
exactly when the block is a custom block or declares no language that an id cannot
carry: an empty one, or for a template or a script one that starts with a
position. -/
theorem address?_ofBlock_iff {options : ParseOptions} {parsedAs : Path} {source : String}
    {descriptor : Descriptor} {kind : BlockKind} {index : Option Nat} {block : Block}
    (parsed : Descriptor.ofSource options parsedAs source = .ok descriptor)
    (addressed : descriptor.Addresses kind index block)
    (bounded : ∀ position ∈ index, position < Address.indexBound)
    {file : Path} (extended : extension <:+ file.text.toList) :
    address? Languages.builtin (ofBlock Languages.builtin file block kind index) =
        some { kind, lang := Languages.builtin.forBlock kind block, index } ↔
      kind = .customBlocks ∨ ∀ lang ∈ block.lang, Languages.ReadsBack kind lang := by
  have named : EndsInExtension (baseName (withoutQuery file.text.toList)) :=
    (endsInExtension_of_suffix extended).withoutQuery.baseName
  have tagged := Descriptor.tag_ne_empty_of_mem_blocks parsed addressed.mem_blocks
  unfold ofBlock
  rw [address?_of_blockQuery (query?_write file kind index _ named),
    Address.ofText?_toText_iff Languages.builtin kind bounded, (Descriptor.addresses_iff.1 addressed).2]
  exact Languages.readsBack_forBlock_builtin_iff tagged

/-- A script in a language of two segments, the second of which is a position. -/
theorem address?_ofBlock_dotted :
    let script : Block :=
      { tag := "script", lang := some "d.2", attributes := Table.ofList [("lang", .text "d.2")] }
    Descriptor.ofSource { needMap := false } ⟨"/src/App.vue"⟩
        "<script lang=\"d.2\"></script>" = .ok { script := some script } ∧
      address? Languages.builtin (ofBlock Languages.builtin ⟨"/src/App.vue"⟩ script .script none) =
        some { kind := .script, lang := "d.2", index := none } := by
  intro script
  have parsed : Descriptor.ofSource { needMap := false } ⟨"/src/App.vue"⟩
      "<script lang=\"d.2\"></script>" = .ok { script := some script } := by
    decide +kernel
  have addressed : Descriptor.Addresses { script := some script } .script none script :=
    .script rfl
  have readsBack : ∀ lang ∈ script.lang, Languages.ReadsBack .script lang := by
    intro lang declared
    cases declared
    decide
  refine ⟨parsed, ?_⟩
  exact (address?_ofBlock_iff parsed addressed (by simp)
    ⟨"/src/App".toList, by decide⟩).2 (.inr readsBack)

/-- Two blocks whose ids do not give back their address: a script with an empty
language, whose id has no address, and a script in a language of digits, whose id has
a position instead. -/
theorem exists_block_without_address :
    (∃ block : Block,
      Descriptor.ofSource { needMap := false } ⟨"/src/App.vue"⟩ "<script lang=\"\"></script>" =
          .ok { script := some block } ∧
        ofBlock Languages.builtin ⟨"/src/App.vue"⟩ block .script none =
          "App.vue?vuepart=script." ∧
        address? Languages.builtin "App.vue?vuepart=script." = none) ∧
    ∃ block : Block,
      Descriptor.ofSource { needMap := false } ⟨"/src/App.vue"⟩ "<script lang=\"2\"></script>" =
          .ok { script := some block } ∧
        Languages.builtin.forBlock .script block = "2" ∧
        address? Languages.builtin
            (ofBlock Languages.builtin ⟨"/src/App.vue"⟩ block .script none) =
          some { kind := .script, lang := "js", index := some 2 } := by
  constructor
  · refine ⟨{ tag := "script", lang := some "",
              attributes := Table.ofList [("lang", .text "")] }, ?_, ?_, ?_⟩
    · decide +kernel
    · decide +kernel
    · decide +kernel
  · refine ⟨{ tag := "script", lang := some "2",
              attributes := Table.ofList [("lang", .text "2")] }, ?_, ?_, ?_⟩
    · decide +kernel
    · decide +kernel
    · decide +kernel

end VirtualId

end VirtualBlocks
