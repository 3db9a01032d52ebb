import VirtualBlocks.SourceMap.Basic

/-!
Contract: the blocks of a single-file component.

Owns:
- an attribute of an opening tag, a flag or a text;
- a block: its tag, content, attributes and what the attributes say about it;
- setting an attribute together with what it says;
- the JSON forms of both.
-/

namespace VirtualBlocks

/-- The value of an attribute: `scoped` is a flag, `lang="ts"` a text. -/
inductive Attribute where
  | flag (on : Bool)
  | text (content : String)
deriving DecidableEq

namespace Attribute

/-- The text of an attribute that carries one. -/
def text? : Attribute → Option String
  | .text content => some content
  | .flag _ => none

def ofJson? : Json → Option Attribute
  | .bool on => some (.flag on)
  | value => value.string?.map .text

def toJson : Attribute → Json
  | .flag on => .bool on
  | .text content => .string content

end Attribute

/-- A top-level block of a component. `code` is the compiled code that is
served in place of the content. -/
structure Block where
  tag : String := ""
  content : String := ""
  lang : Option String := none
  src : Option String := none
  attributes : Table Attribute := ∅
  map : Option SourceMap := none
  isScoped : Bool := false
  isModule : Bool := false
  code : Option String := none
deriving DecidableEq

namespace Block

instance : Inhabited Block := ⟨{}⟩

/-- The text of an attribute, if the block has it and it carries one. -/
def attributeText? (block : Block) (name : String) : Option String :=
  (block.attributes.get? name).bind Attribute.text?

/-- What is served for a block: its compiled code, else its content. -/
def served (block : Block) : String :=
  block.code.getD block.content

/-! ## Declarations -/

def withLang (block : Block) (lang : String) : Block :=
  { block with attributes := block.attributes.insert "lang" (.text lang), lang := some lang }

/-- The block with its content declared to stand in another file. -/
def withSrc (block : Block) (src : String) : Block :=
  { block with attributes := block.attributes.insert "src" (.text src), src := some src }

def withScope (block : Block) : Block :=
  { block with attributes := block.attributes.insert "scoped" (.flag true), isScoped := true }

def withModule (block : Block) : Block :=
  { block with attributes := block.attributes.insert "module" (.flag true), isModule := true }

/-! ## JSON -/

def fieldNames : List String :=
  ["type", "content", "lang", "src", "attrs", "map", "scoped", "module", "code"]

def ofJson? (value : Json) : Option Block := do
  let fields ← value.fields? fieldNames
  let tag ← fields.get "type" Json.string? ""
  let content ← fields.get "content" Json.string? ""
  let lang ← fields.get "lang" (Json.optional? Json.string?) none
  let src ← fields.get "src" (Json.optional? Json.string?) none
  let attributes ← fields.get "attrs" (Json.table? Attribute.ofJson?) ∅
  let map ← fields.get "map" (Json.optional? SourceMap.ofJson?) none
  let isScoped ← fields.get "scoped" Json.bool? false
  let isModule ← fields.get "module" Json.bool? false
  let code ← fields.get "code" (Json.optional? Json.string?) none
  return { tag, content, lang, src, attributes, map, isScoped, isModule, code }

def toJson (block : Block) : Json :=
  Json.record
    [("type", .string block.tag),
      ("content", .string block.content),
      ("lang", .optional .string block.lang),
      ("src", .optional .string block.src),
      ("attrs", .table Attribute.toJson block.attributes),
      ("map", .optional SourceMap.toJson block.map),
      ("scoped", .bool block.isScoped),
      ("module", .bool block.isModule),
      ("code", .optional .string block.code)]

end Block

end VirtualBlocks
