import VirtualBlocks.Compiled
import VirtualBlocks.PluginError
import VirtualBlocks.TagFilter

/-!
Contract: a plugin and what it is built from.

Owns:
- the collaborators: a component reader, a template compiler, a style compiler
  and an assembler, each an action on a state of their own;
- the headers of styles, which may be actions as well;
- the setup of a plugin, and the plugin it gives or the pattern that prevents
  it;
- the session, which is all that a call of the plugin may change: the store and
  the state of the collaborators.

The state of the collaborators is a parameter: the plugin passes it on and never
looks inside.
-/

namespace VirtualBlocks

/-- The tools that the plugin leaves the work of compiling to. -/
structure Collaborators (σ : Type) where
  parse : ParseOptions → Path → String → StateM σ (Except ParseError Descriptor)
  templateCompiler : String
  compileTemplate : TemplateOptions → Path → Block → StateM σ CompiledTemplate
  styleCompiler : String
  compileStyle : Path → String → Block → StateM σ CompiledStyle
  assemble : Path → AssemblyInput → AssemblyOptions → StateM σ AssembledModule

/-- A header of the styles of one language. A computed one is evaluated whenever
it is used. -/
inductive Header (σ : Type) where
  | literal (text : String)
  | computed (render : StateM σ String)

def Header.render {σ : Type} : Header σ → StateM σ String
  | .literal text => pure text
  | .computed render => render

/-- What a plugin is built from: the options as data, and the ones that are
functions. -/
structure Setup (σ : Type) where
  config : Config := {}
  /-- Replaces the custom blocks of the options. -/
  customBlocks : Option TagSetting := none
  /-- Headers over those of the options. -/
  headers : List (String × Header σ) := []
  beforeAssembly : Option (AssemblyInput → StateM σ AssemblyInput) := none
  /-- Replaces the mode that the environment asks for. -/
  mode : Option BuildMode := none
  environment : String → Option String := fun _ => none
  workingDirectory : Path := ⟨"."⟩

structure Plugin (σ : Type) where
  config : Config
  mode : BuildMode
  languages : Languages
  filter : IdFilter
  customBlocks : Option TagSetting
  headers : Table (Header σ)
  beforeAssembly : Option (AssemblyInput → StateM σ AssemblyInput)
  workingDirectory : Path
  collaborators : Collaborators σ

/-- All that a call of the plugin may change. -/
structure Session (σ : Type) where
  store : Store := .empty
  world : σ

/-- A call of the plugin. What it changed before it failed stays changed. -/
abbrev PluginM (σ : Type) := ExceptT PluginError (StateM (Session σ))

namespace Plugin

variable {σ : Type}

/-- The headers in effect. -/
def headersOf (setup : Setup σ) : Table (Header σ) :=
  (setup.config.data.map Header.literal).insertAll setup.headers

/-- The custom block setting in effect. -/
def tagSettingOf (setup : Setup σ) : Option TagSetting :=
  let explicit := setup.customBlocks.or (setup.config.customBlocks.map .tags)
  (TagSetting.merge explicit setup.config.allowedBlocks setup.config.deniedBlocks).1

/-- The plugin of a setup, unless a pattern cannot be read. -/
def ofSetup (setup : Setup σ) (collaborators : Collaborators σ) :
    Except PluginError (Plugin σ) :=
  let config := setup.config
  match IdFilter.ofPatterns config.includePatterns config.excludes with
  | .error error => .error (.config error.text)
  | .ok filter =>
      .ok
        { config
          mode := setup.mode.getD (BuildMode.detect config setup.environment)
          languages := config.languages
          filter
          customBlocks := tagSettingOf setup
          headers := headersOf setup
          beforeAssembly := setup.beforeAssembly
          workingDirectory := setup.workingDirectory
          collaborators }

def exportsTag (plugin : Plugin σ) (tag : String) : Bool :=
  TagSetting.allows plugin.customBlocks tag

/-- A path as seen from the working directory. -/
def absolute (plugin : Plugin σ) (path : Path) : Path :=
  if path.isAbsolute then path else plugin.workingDirectory.join path

/-! ## Steps of a call -/

/-- A step that only the collaborators take part in. -/
def consult {α : Type} (action : StateM σ α) : PluginM σ α :=
  fun session =>
    let (value, world) := action session.world
    (.ok value, { session with world })

/-- The descriptor becomes the current one of its file. -/
def publish (file : Path) (descriptor : Descriptor) : PluginM σ Unit :=
  fun session => (.ok (), { session with store := session.store.insert file descriptor })

def currentStore : PluginM σ Store :=
  fun session => (.ok session.store, session)

/-- A step that may fail and changes nothing. -/
def check {α : Type} (outcome : Except PluginError α) : PluginM σ α :=
  fun session => (outcome, session)

/-- Text with the header of a language before it, if there is one. -/
def withHeader (plugin : Plugin σ) (lang text : String) : PluginM σ String :=
  match plugin.headers.get? lang with
  | none => pure text
  | some header => do
      let rendered ← consult header.render
      return rendered ++ text

end Plugin

end VirtualBlocks
