/-!
Contract: what the parts of the program are called.

Owns:
- the kinds of collaborators, and how a collaborator introduces itself;
- the built-in reader and the built-in assembler under their names;
- the hooks of the plugin and the names their messages go by.
-/

namespace VirtualBlocks

/-- What a collaborator does. -/
inductive ToolKind where
  | reader
  | templateCompiler
  | styleCompiler
  | assembler
deriving DecidableEq

def ToolKind.name : ToolKind → String
  | .reader => "parser"
  | .templateCompiler => "template_compiler"
  | .styleCompiler => "style_compiler"
  | .assembler => "assembler"

/-- How a collaborator introduces itself. -/
structure Tool where
  name : String
  version : String
  kind : ToolKind
  description : Option String := none
deriving DecidableEq

def programVersion : String := "0.1.0"

def Tool.splitter : Tool :=
  { name := "block-splitter"
    version := programVersion
    kind := .reader
    description := some "Splits a composite file into top-level blocks" }

def Tool.assembly : Tool :=
  { name := "normalize-assembler"
    version := programVersion
    kind := .assembler
    description := some "Emits a normalize-component module" }

/-- The calls that a bundler makes. -/
inductive Hook where
  | resolve
  | load
  | transform
deriving DecidableEq

namespace Hook

def all : List Hook := [.resolve, .load, .transform]

def name : Hook → String
  | .resolve => "resolve"
  | .load => "load"
  | .transform => "transform"

/-- The name that the messages of a hook go by. -/
def target (hook : Hook) : String :=
  "vuepart::" ++ hook.name

end Hook

end VirtualBlocks
