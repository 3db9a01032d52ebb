import VirtualBlocks.Json.Record

/-!
Contract: version 3 source maps as data and as JSON.

Owns:
- the map type and the map without mappings;
- its JSON form, which leaves out an absent file, an absent source root and an
  empty list of source contents, and always names the rest in one fixed order.

Does not own: the mappings of a block (`SourceMap.Lines`) and the digits they
are written in (`SourceMap.Vlq`).
-/

namespace VirtualBlocks

/-- A source map. A field that JSON text leaves out has the default given
here. -/
structure SourceMap where
  version : UInt32 := 3
  file : Option String := none
  sourceRoot : Option String := none
  sources : List String := []
  sourcesContent : List (Option String) := []
  names : List String := []
  mappings : String := ""
deriving DecidableEq

namespace SourceMap

def empty : SourceMap := {}

def isEmpty (map : SourceMap) : Bool :=
  map.mappings.isEmpty

/-- A version: a number of 32 bits. -/
def version? (value : Json) : Option UInt32 :=
  (value.naturalBelow? UInt32.size).map UInt32.ofNat

def fieldNames : List String :=
  ["version", "file", "sourceRoot", "sources", "sourcesContent", "names", "mappings"]

def ofJson? (value : Json) : Option SourceMap := do
  let fields ← value.fields? fieldNames
  let version ← fields.get "version" version? 3
  let file ← fields.get "file" (Json.optional? Json.string?) none
  let sourceRoot ← fields.get "sourceRoot" (Json.optional? Json.string?) none
  let sources ← fields.get "sources" (Json.list? Json.string?) []
  let sourcesContent ←
    fields.get "sourcesContent" (Json.list? (Json.optional? Json.string?)) []
  let names ← fields.get "names" (Json.list? Json.string?) []
  let mappings ← fields.get "mappings" Json.string? ""
  return { version, file, sourceRoot, sources, sourcesContent, names, mappings }

/-- A field that is left out when it is absent. -/
def optionalField (name : String) : Option String → List (String × Json)
  | none => []
  | some content => [(name, Json.string content)]

def toJson (map : SourceMap) : Json :=
  let contents :=
    if map.sourcesContent.isEmpty then []
    else [("sourcesContent", Json.array (map.sourcesContent.map (Json.optional Json.string)))]
  Json.record
    ([("version", Json.natural map.version.toNat)] ++
      optionalField "file" map.file ++
      optionalField "sourceRoot" map.sourceRoot ++
      [("sources", Json.strings map.sources)] ++
      contents ++
      [("names", Json.strings map.names), ("mappings", Json.string map.mappings)])

end SourceMap

end VirtualBlocks
