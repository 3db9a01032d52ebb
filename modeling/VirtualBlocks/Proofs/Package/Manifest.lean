import VirtualBlocks.Package
import VirtualBlocks.Proofs.Json.Record

/-!
Contract: the entry point that the manifest of a package names.

Owns:
- which values are manifests, and the entry point that each of them gives;
- that exactly these are read as manifests, and so are the contents of files that
  are the UTF-8 of their text.

Does not own: the value that a text stands for (`Json.Reader`).
-/

namespace VirtualBlocks.Package

/-! ## Values -/

/-- A manifest gives an entry point, which is a text, or `null` when there is none: as an
object with one field for it, without which there is none either, or as an array of it
alone. -/
inductive NamesMain : Json → Option String → Prop
  | absent {fields : List (String × Json)} (unnamed : "main" ∉ fields.map Prod.fst) :
      NamesMain (Json.record fields) none
  | field {before after : List (String × Json)} (main : Option String)
      (notBefore : "main" ∉ before.map Prod.fst) (notAfter : "main" ∉ after.map Prod.fst) :
      NamesMain (Json.record (before ++ ("main", Json.optional Json.string main) :: after)) main
  | array (main : Option String) : NamesMain (.array [Json.optional Json.string main]) main

theorem mainOfManifest?_record (fields : Json.Fields) :
    mainOfManifest? (Json.record fields) =
      match fields.filter (fun field => field.1 == "main") with
      | [] => some none
      | [field] => Json.optional? Json.string? field.2
      | _ => none :=
  Json.get_fields?_record fields "main" (Json.optional? Json.string?) none

theorem mainOfManifest?_of_unkeyed {entries : List (Quoted × Json)}
    (unkeyed : (Json.object entries).keyed? = none) : mainOfManifest? (.object entries) = none := by
  show ((Json.object entries).keyed? >>= _) >>= _ = none
  rw [unkeyed]
  rfl

theorem namesMain_record {fields : Json.Fields} {main : Option String}
    (read : mainOfManifest? (Json.record fields) = some main) :
    NamesMain (Json.record fields) main := by
  rw [mainOfManifest?_record] at read
  split at read
  · rename_i nothing
    cases read
    exact .absent (Json.filter_key_eq_nil_iff.1 nothing)
  · rename_i field single
    obtain ⟨before, after, rfl, isName, notBefore, notAfter⟩ :=
      Json.filter_key_eq_singleton_iff.1 single
    obtain ⟨name, value⟩ := field
    obtain rfl : name = "main" := isName
    obtain rfl := Json.optionalString_eq_some_iff.1 read
    exact .field main notBefore notAfter
  · contradiction

theorem namesMain_of_mainOfManifest? {manifest : Json} {main : Option String}
    (read : mainOfManifest? manifest = some main) : NamesMain manifest main := by
  cases manifest with
  | array items =>
      match items with
      | [] => contradiction
      | [value] =>
          obtain rfl := Json.optionalString_eq_some_iff.1 read
          exact .array main
      | _ :: _ :: _ => contradiction
  | object entries =>
      cases keyed : (Json.object entries).keyed? with
      | none =>
          rw [mainOfManifest?_of_unkeyed keyed] at read
          contradiction
      | some fields =>
          rw [Json.keyed?_eq_some_iff.1 keyed] at read ⊢
          exact namesMain_record read
  | null => contradiction
  | bool => contradiction
  | number => contradiction
  | text => contradiction

theorem mainOfManifest?_eq_some_iff {manifest : Json} {main : Option String} :
    mainOfManifest? manifest = some main ↔ NamesMain manifest main := by
  constructor
  · exact namesMain_of_mainOfManifest?
  · intro names
    cases names with
    | absent unnamed => rw [mainOfManifest?_record, Json.filter_key_eq_nil_iff.2 unnamed]
    | @field before after main notBefore notAfter =>
        have single := Json.filter_key_eq_singleton_iff.2
          ⟨before, after, rfl, (rfl : ("main", Json.optional Json.string main).1 = "main"),
            notBefore, notAfter⟩
        rw [mainOfManifest?_record, single]
        exact Json.optionalString_eq_some_iff.2 rfl
    | array main => exact Json.optionalString_eq_some_iff.2 rfl

/-! ## Contents of files -/

/-- The manifest in the content of a file, read as far as its entry point. -/
def readManifest? (content : List UInt8) : Option (Option String) :=
  (Text.ofBytes? content).bind (fun text => (Json.ofText? text).bind mainOfManifest?)

/-- The content of a file is a manifest with this entry point. -/
def IsManifest (content : List UInt8) (main : Option String) : Prop :=
  ∃ (text : String) (manifest : Json), content = Text.bytes text.toList ∧
    Json.ofText? text = some manifest ∧ NamesMain manifest main

theorem readManifest?_eq_some_iff {content : List UInt8} {main : Option String} :
    readManifest? content = some main ↔ IsManifest content main := by
  unfold readManifest? IsManifest
  constructor
  · intro read
    obtain ⟨text, isText, readText⟩ := Option.bind_eq_some_iff.1 read
    obtain ⟨manifest, isValue, names⟩ := Option.bind_eq_some_iff.1 readText
    exact ⟨text, manifest, Text.ofBytes?_eq_some_iff.1 isText, isValue,
      mainOfManifest?_eq_some_iff.1 names⟩
  · rintro ⟨text, manifest, isText, isValue, names⟩
    rw [Text.ofBytes?_eq_some_iff.2 isText, Option.bind_some, isValue, Option.bind_some]
    exact mainOfManifest?_eq_some_iff.2 names

/-- A content that is no manifest is not read. -/
theorem readManifest?_eq_none {content : List UInt8}
    (unreadable : ∀ main, ¬ IsManifest content main) : readManifest? content = none := by
  cases read : readManifest? content with
  | none => rfl
  | some main => exact absurd (readManifest?_eq_some_iff.1 read) (unreadable main)

end VirtualBlocks.Package
