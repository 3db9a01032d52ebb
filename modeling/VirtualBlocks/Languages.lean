import VirtualBlocks.Block.Descriptor

/-!
Contract: the language that a block is addressed by.

Owns:
- the table of default languages, by kind or by custom tag, and its built-in
  bindings;
- the language of a kind: a given one, else the default, else the kind's name;
- the language of a block, for which a custom block has a rule of its own.
-/

namespace VirtualBlocks

/-- Default languages by the name of a kind or by a custom tag. -/
abbrev Languages := Table String

namespace Languages

/-- The defaults that hold unless they are overridden. -/
def builtin : Languages :=
  Table.ofList [("template", "html"), ("styles", "css"), ("script", "js")]

/-- The language of a block of this kind: the declared one, else the default,
else the name of the kind. -/
def forKind (languages : Languages) (kind : BlockKind) (declared : Option String) :
    String :=
  declared.getD ((languages.get? kind.name).getD kind.name)

/-- The language of a custom block: a `lang` attribute that is not empty, else
the default for its tag, else the tag itself. -/
def forCustomBlock (languages : Languages) (block : Block) : String :=
  match (block.attributeText? "lang").filter (fun lang => lang ≠ "") with
  | some lang => lang
  | none => (languages.get? block.tag).getD block.tag

/-- The language that a block is addressed by. -/
def forBlock (languages : Languages) (kind : BlockKind) (block : Block) : String :=
  match kind with
  | .customBlocks => languages.forCustomBlock block
  | _ => languages.forKind kind block.lang

end Languages

end VirtualBlocks
