import VirtualBlocks.Block.Descriptor
import VirtualBlocks.Config
import VirtualBlocks.Proofs.Json.Record
import VirtualBlocks.Proofs.Json.RoundTrip

/-!
Contract: the options and the descriptors, written as JSON and read back.

Owns:
- that each record of the library is read back from what is written for it,
  renamed and left out fields included.
-/

namespace VirtualBlocks

open Json

/-! ## Source maps -/

namespace SourceMap

theorem readsBack_version : ReadsBack version? (fun version => Json.natural version.toNat) where
  plain version := .number version.toNat
  read_write version := by
    have digits : version.toNat.repr.toList = Nat.toDigits 10 version.toNat := Nat.toList_repr
    have all : (Nat.toDigits 10 version.toNat).all Char.isDigit = true :=
      List.all_eq_true.2 (fun c member =>
        Nat.isDigit_of_mem_toDigits (by decide) (by decide) member)
    have read : (Json.natural version.toNat).natural? = some version.toNat := by
      simp [Json.natural, natural?, digits, all]
    have below : version.toNat < UInt32.size := version.toNat_lt_size
    unfold version? naturalBelow?
    rw [read, Option.filter_some, if_pos (decide_eq_true below), Option.map_some,
      UInt32.ofNat_toNat]

/-- The contents of the sources, unless there are none. -/
def contentsIfAny (contents : List (Option String)) : Option Json :=
  if contents.isEmpty then none else some (.array (contents.map (Json.optional Json.string)))

/-- A map is written without a file, a source root and contents that it does not
have. -/
theorem toJson_eq (map : SourceMap) :
    map.toJson =
      record (("version", Json.natural map.version.toNat) ::
        (fieldIf "file" (map.file.map Json.string) ++
          (fieldIf "sourceRoot" (map.sourceRoot.map Json.string) ++
            ("sources", Json.strings map.sources) ::
              (fieldIf "sourcesContent" (contentsIfAny map.sourcesContent) ++
                [("names", Json.strings map.names), ("mappings", Json.string map.mappings)])))) := by
  have optionalField_eq (name : String) (content : Option String) :
      optionalField name content = fieldIf name (content.map Json.string) := by
    cases content <;> rfl
  have contents_eq :
      (if map.sourcesContent.isEmpty then []
        else [("sourcesContent",
          Json.array (map.sourcesContent.map (Json.optional Json.string)))]) =
        fieldIf "sourcesContent" (contentsIfAny map.sourcesContent) := by
    unfold contentsIfAny
    split <;> rfl
  unfold toJson
  rw [optionalField_eq, optionalField_eq, contents_eq]
  simp

/-- The names that a map is written with: all but those of the three fields that it
may do without. -/
def writtenNames (map : SourceMap) : List String :=
  fieldNames.filter (fun name =>
    !(name == "file" && map.file.isNone ||
      name == "sourceRoot" && map.sourceRoot.isNone ||
      name == "sourcesContent" && map.sourcesContent.isEmpty))

theorem names?_toJson (map : SourceMap) : map.toJson.names? = some map.writtenNames := by
  rw [toJson_eq, names?_record]
  obtain ⟨version, file, sourceRoot, sources, contents, names, mappings⟩ := map
  cases file <;> cases sourceRoot <;> cases contents <;> rfl

theorem contentsIfAny_elim (contents : List (Option String)) :
    (contentsIfAny contents).elim (some []) (list? (optional? string?)) = some contents := by
  cases contents with
  | nil => rfl
  | cons first rest => exact ReadsBack.optionalString.list.read_write (first :: rest)

theorem leftOut_elim (content : Option String) :
    (content.map Json.string).elim (some none) (optional? string?) = some content := by
  cases content <;> rfl

theorem readsBack : ReadsBack ofJson? toJson where
  plain map := by
    have leftOut : ∀ content : Option String, ∀ present ∈ content.map Json.string,
        IsPlain present := by
      intro content present written
      obtain ⟨text, -, rfl⟩ := Option.map_eq_some_iff.1 written
      exact ReadsBack.string.plain text
    have contents : ∀ present ∈ contentsIfAny map.sourcesContent, IsPlain present := by
      intro present written
      unfold contentsIfAny at written
      split at written
      · contradiction
      · cases written
        exact ReadsBack.optionalString.list.plain map.sourcesContent
    rw [toJson_eq]
    apply isPlain_record
    simp only [List.forall_mem_cons, List.forall_mem_append]
    exact ⟨readsBack_version.plain _, forall_mem_fieldIf (leftOut _),
      forall_mem_fieldIf (leftOut _), ReadsBack.strings.plain _, forall_mem_fieldIf contents,
      ReadsBack.strings.plain _, ReadsBack.string.plain _, nofun⟩
  read_write map := by
    rw [toJson_eq]
    unfold ofJson?
    rw [fields?_record]
    case distinct => decide
    case listed =>
      exact .cons_cons _ (names_fieldIf_append _ (names_fieldIf_append _
        (.cons_cons _ (names_fieldIf_append _ (.refl _)))))
    rw [Option.bind_eq_bind, Option.bind_some]
    simp only [Fields.get_cons, Fields.get_fieldIf, Fields.get_nil, String.reduceEq, reduceIte]
    simp only [Option.bind_eq_bind, Option.bind_some, readsBack_version.read_write, leftOut_elim,
      contentsIfAny_elim, ReadsBack.strings.read_write, ReadsBack.string.read_write]
    rfl

end SourceMap

namespace TemplateConfig

theorem readsBack : ReadsBack ofJson? toJson where
  plain config := by
    apply isPlain_record
    simp only [List.forall_mem_cons]
    exact ⟨(ReadsBack.bool.optional nofun).plain _, ReadsBack.strings.table.plain _, nofun⟩
  read_write config := by
    unfold ofJson? toJson
    rw [fields?_record]
    case distinct => decide
    case listed => exact .refl _
    rw [Option.bind_eq_bind, Option.bind_some]
    simp only [Fields.get_cons, String.reduceEq, reduceIte]
    simp only [Option.bind_eq_bind, Option.bind_some, ReadsBack.strings.table.read_write,
      (ReadsBack.bool.optional nofun).read_write]
    rfl

end TemplateConfig

/-! ## Descriptors -/

theorem Attribute.readsBack : ReadsBack ofJson? toJson where
  plain
    | .flag on => .bool on
    | .text content => .text (some content)
  read_write
    | .flag _ => rfl
    | .text _ => rfl

namespace Block

theorem readsBack_map : ReadsBack (optional? SourceMap.ofJson?) (Json.optional SourceMap.toJson) :=
  SourceMap.readsBack.optional nofun

theorem readsBack : ReadsBack ofJson? toJson where
  plain block := by
    apply isPlain_record
    simp only [List.forall_mem_cons]
    exact ⟨ReadsBack.string.plain _, ReadsBack.string.plain _, ReadsBack.optionalString.plain _,
      ReadsBack.optionalString.plain _, Attribute.readsBack.table.plain _, readsBack_map.plain _,
      ReadsBack.bool.plain _, ReadsBack.bool.plain _, ReadsBack.optionalString.plain _, nofun⟩
  read_write block := by
    unfold ofJson? toJson
    rw [fields?_record]
    case distinct => decide
    case listed => exact .refl _
    rw [Option.bind_eq_bind, Option.bind_some]
    simp only [Fields.get_cons, String.reduceEq, reduceIte]
    simp only [Option.bind_eq_bind, Option.bind_some, ReadsBack.string.read_write,
      ReadsBack.bool.read_write, ReadsBack.optionalString.read_write,
      Attribute.readsBack.table.read_write, readsBack_map.read_write]
    rfl

end Block

namespace Descriptor

theorem readsBack : ReadsBack ofJson? toJson where
  plain descriptor := by
    apply isPlain_record
    simp only [List.forall_mem_cons]
    exact ⟨(Block.readsBack.optional nofun).plain _, (Block.readsBack.optional nofun).plain _,
      Block.readsBack.list.plain _, Block.readsBack.list.plain _, nofun⟩
  read_write descriptor := by
    unfold ofJson? toJson
    rw [fields?_record]
    case distinct => decide
    case listed => exact .refl _
    rw [Option.bind_eq_bind, Option.bind_some]
    simp only [Fields.get_cons, String.reduceEq, reduceIte]
    simp only [Option.bind_eq_bind, Option.bind_some,
      (Block.readsBack.optional nofun).read_write, Block.readsBack.list.read_write]
    rfl

end Descriptor

/-! ## Options -/

namespace Config

theorem readsBack : ReadsBack ofJson? toJson where
  plain config := by
    apply isPlain_record
    simp only [List.forall_mem_cons]
    exact ⟨ReadsBack.strings.plain _, ReadsBack.strings.plain _,
      ReadsBack.optionalStrings.plain _, ReadsBack.string.table.plain _,
      ReadsBack.bool.plain _, ReadsBack.bool.plain _, ReadsBack.string.table.plain _,
      ReadsBack.optionalStrings.plain _, ReadsBack.optionalStrings.plain _,
      TemplateConfig.readsBack.plain _, ReadsBack.bool.plain _,
      ReadsBack.optionalString.plain _, ReadsBack.optionalString.plain _,
      ReadsBack.optionalString.plain _, ReadsBack.bool.plain _,
      ReadsBack.optionalString.plain _, ReadsBack.optionalString.plain _, nofun⟩
  read_write config := by
    unfold ofJson? toJson
    rw [fields?_record]
    case distinct => decide
    case listed => exact .refl _
    rw [Option.bind_eq_bind, Option.bind_some]
    simp only [Fields.get_cons, String.reduceEq, reduceIte]
    simp only [Option.bind_eq_bind, Option.bind_some, ReadsBack.strings.read_write,
      ReadsBack.string.table.read_write, ReadsBack.bool.read_write,
      ReadsBack.optionalString.read_write, ReadsBack.optionalStrings.read_write,
      TemplateConfig.readsBack.read_write]
    rfl

end Config

/-! ## Texts -/

theorem Json.ReadsBack.ofText? {α : Type} {read : Json → Option α} {write : α → Json}
    (back : ReadsBack read write) (value : α) :
    (Json.ofText? (write value).toCompact).bind read = some value ∧
      (Json.ofText? (write value).toIndented).bind read = some value := by
  obtain ⟨compact, indented⟩ := ofText?_written (back.plain value)
  rw [compact, indented]
  exact ⟨back.read_write value, back.read_write value⟩

/-- Options and descriptors are read back from the texts that are written for them,
the compact and the indented one. Their fields, and those of the records in them,
carry the names that are read, a map leaves out what it does not have, and an
attribute is written as the flag or the text that it is. -/
theorem data_readsBack_from_text :
    (∀ config : Config,
      Config.ofText? config.toJson.toCompact = some config ∧
        Config.ofText? config.toJson.toIndented = some config) ∧
    (∀ descriptor : Descriptor,
      (Json.ofText? descriptor.toJson.toCompact).bind Descriptor.ofJson? = some descriptor ∧
        (Json.ofText? descriptor.toJson.toIndented).bind Descriptor.ofJson? =
          some descriptor) ∧
    (∀ config : Config, config.toJson.names? = some Config.fieldNames) ∧
    (∀ config : TemplateConfig, config.toJson.names? = some TemplateConfig.fieldNames) ∧
    (∀ descriptor : Descriptor, descriptor.toJson.names? = some Descriptor.fieldNames) ∧
    (∀ block : Block, block.toJson.names? = some Block.fieldNames) ∧
    (∀ map : SourceMap, map.toJson.names? = some map.writtenNames) ∧
    (∀ on : Bool, (Attribute.flag on).toJson = .bool on) ∧
    ∀ content : String, (Attribute.text content).toJson = .string content :=
  ⟨Config.readsBack.ofText?, Descriptor.readsBack.ofText?, fun _ => names?_record _,
    fun _ => names?_record _, fun _ => names?_record _, fun _ => names?_record _,
    SourceMap.names?_toJson, fun _ => rfl, fun _ => rfl⟩

end VirtualBlocks
