import VirtualBlocks.Block.Basic
import VirtualBlocks.Config

/-!
Contract: what passes between the plugin and its compilers.

Owns:
- the results of the template compiler and of the style compiler;
- the parts of a component module and the settings it is put together with;
- the module itself.
-/

namespace VirtualBlocks

/-- What a template compiler is told. -/
structure TemplateOptions where
  isProduction : Bool
  assetUrls : Table (List String)
deriving DecidableEq

/-- A compiled template: code that defines the render functions, errors, and
tips that are no errors. -/
structure CompiledTemplate where
  code : String := ""
  errors : List String := []
  tips : List String := []
  functional : Bool := false
deriving DecidableEq

/-- A compiled style. `modules` is the table of class names of a style module and
`moduleName` the name it is bound to. -/
structure CompiledStyle where
  code : String := ""
  map : Option SourceMap := none
  errors : List String := []
  modules : Option (Table String) := none
  moduleName : Option String := none
  isScoped : Bool := false
  media : Option String := none
deriving DecidableEq

/-- Whether a style is a style module. -/
def CompiledStyle.isModule (style : CompiledStyle) : Bool :=
  style.moduleName.isSome || style.modules.isSome

/-- The script of a component module. -/
structure ScriptSource where
  code : String := ""
  map : Option SourceMap := none
deriving DecidableEq

/-- The parts of a component module. Custom blocks are exported behind the
module, so none of them is among its parts. -/
structure AssemblyInput where
  scopeId : String := ""
  styles : List CompiledStyle := []
  customBlocks : List Block := []
  template : Option CompiledTemplate := none
  script : ScriptSource := {}
deriving DecidableEq

/-- The helpers of a component module and the build it is for. A helper that
starts with `~` is the name of a module to import; any other one is an
expression. -/
structure AssemblyOptions where
  normalizer : String := Config.defaultNormalizer
  styleInjector : String := Config.defaultStyleInjector
  serverStyleInjector : String := Config.defaultServerStyleInjector
  isProduction : Bool := false
  isServer : Bool := false
deriving DecidableEq

structure AssembledModule where
  code : String := ""
  map : Option SourceMap := none
deriving DecidableEq

end VirtualBlocks
