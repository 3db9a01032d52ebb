import VirtualBlocks.Block.Basic
import VirtualBlocks.Block.Kind

/-!
Contract: a component as its blocks.

Owns:
- the descriptor, whose styles and custom blocks are in source order;
- selecting the block that a kind and a position name;
- the JSON form of a descriptor.
-/

namespace VirtualBlocks

structure Descriptor where
  template : Option Block := none
  script : Option Block := none
  styles : List Block := []
  customBlocks : List Block := []
deriving DecidableEq

namespace Descriptor

instance : Inhabited Descriptor := ⟨{}⟩

/-- The blocks in the order in which they are addressed. -/
def blocks (descriptor : Descriptor) : List Block :=
  descriptor.template.toList ++ descriptor.script.toList ++ descriptor.styles ++
    descriptor.customBlocks

def blockCount (descriptor : Descriptor) : Nat :=
  descriptor.blocks.length

/-- The block of a kind, for a list the one at the given position. -/
def select? (descriptor : Descriptor) : BlockKind → Option Nat → Option Block
  | .template, _ => descriptor.template
  | .script, _ => descriptor.script
  | .styles, index => index.bind (descriptor.styles[·]?)
  | .customBlocks, index => index.bind (descriptor.customBlocks[·]?)

def fieldNames : List String :=
  ["template", "script", "styles", "customBlocks"]

def ofJson? (value : Json) : Option Descriptor := do
  let fields ← value.fields? fieldNames
  let template ← fields.get "template" (Json.optional? Block.ofJson?) none
  let script ← fields.get "script" (Json.optional? Block.ofJson?) none
  let styles ← fields.get "styles" (Json.list? Block.ofJson?) []
  let customBlocks ← fields.get "customBlocks" (Json.list? Block.ofJson?) []
  return { template, script, styles, customBlocks }

def toJson (descriptor : Descriptor) : Json :=
  Json.record
    [("template", .optional Block.toJson descriptor.template),
      ("script", .optional Block.toJson descriptor.script),
      ("styles", .array (descriptor.styles.map Block.toJson)),
      ("customBlocks", .array (descriptor.customBlocks.map Block.toJson))]

end Descriptor

end VirtualBlocks
