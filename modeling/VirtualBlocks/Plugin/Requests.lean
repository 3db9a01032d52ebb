import VirtualBlocks.Package
import VirtualBlocks.Plugin.Basic

/-!
Contract: the calls by which a bundler finds and loads the blocks of a component.

Owns:
- resolving: runtime helpers lead to installed files, block ids to absolute ids
  or, for a block with a source elsewhere, to that source;
- loading: the compiled code of a block if it has some, else its content, a style
  behind the header of its language.

An id that is neither is not ours, which is no error.
-/

namespace VirtualBlocks

/-- What a block id loads. -/
structure LoadOutput where
  code : String
  map : Option SourceMap
deriving DecidableEq

namespace Plugin

variable {σ : Type}

/-- What the ids of runtime helpers start with. -/
def helpersNamespace : String := "vue-runtime-helpers/"

/-- Whether an id names a runtime helper. -/
def isHelper (id : String) : Bool :=
  helpersNamespace.toList.isPrefixOf id.toList

/-- The directory that runtime helpers are looked up from. -/
def helpersDirectory (plugin : Plugin σ) : Path :=
  match plugin.config.helpersDir with
  | none => plugin.workingDirectory
  | some directory => plugin.absolute ⟨directory⟩

/-- The directory that an id is relative to. -/
def importerDirectory (plugin : Plugin σ) (importer : Option String) : Path :=
  plugin.absolute
    (match importer with
    | none => plugin.workingDirectory
    | some file => Path.directory ⟨file⟩)

/-- A block id as an absolute one. -/
def absoluteId (plugin : Plugin σ) (id : String) (importer : Option String) : Path :=
  ((plugin.importerDirectory importer).join ⟨id⟩).normalize

/-- The file that holds the source of a block, seen from its component. -/
def externalSource (view : FileView) (file : Path) (source : String) :
    Except PluginError Path :=
  if source.toList.head? = some '.' then .ok (file.directory.join ⟨source⟩).normalize
  else Package.resolve view source file.directory

/-- The source of a block that stands elsewhere. Styles are compiled here
wherever they come from. -/
def redirect? (request : BlockRequest) (block : Block) : Option String :=
  if request.address.kind = .styles then none else block.src

/-- The absolute id of a block id, or the file its block redirects to. -/
def resolveBlock (plugin : Plugin σ) (view : FileView) (id : String)
    (importer : Option String) : PluginM σ (Option String) := do
  let target := plugin.absoluteId id importer
  match VirtualId.request? plugin.languages target.text with
  | none => return none
  | some request =>
      let store ← currentStore
      let block ← check (store.resolve request)
      match redirect? request block with
      | none => return some target.text
      | some source =>
          let found ← check (externalSource view request.file source)
          return some found.text

/-- Where an id leads, nothing when it is not ours. -/
def resolveId (plugin : Plugin σ) (view : FileView) (id : String)
    (importer : Option String) : PluginM σ (Option String) :=
  if isHelper id then do
    let found ← check (Package.resolve view id plugin.helpersDirectory)
    return some found.text
  else if VirtualId.isBlockRequest plugin.languages id then
    plugin.resolveBlock view id importer
  else pure none

/-- The code that a block is served as. -/
def servedCode (plugin : Plugin σ) (address : Address) (block : Block) :
    PluginM σ String :=
  match block.code with
  | some code => pure code
  | none =>
      if address.kind = .styles then plugin.withHeader address.lang block.content
      else pure block.content

/-- What an id loads, nothing when it is not ours. -/
def load (plugin : Plugin σ) (id : String) : PluginM σ (Option LoadOutput) :=
  match VirtualId.request? plugin.languages id with
  | none => pure none
  | some request => do
      let store ← currentStore
      let block ← check (store.resolve request)
      let code ← plugin.servedCode request.address block
      return some { code, map := block.map }

end Plugin

end VirtualBlocks
