import VirtualBlocks.Assets
import VirtualBlocks.Plugin.EntryScript
import VirtualBlocks.Text.Indentation

/-!
Contract: the component module that a component is turned into.

Owns:
- the order of the steps: read the component and publish it, compile its styles
  and then its template, publish compiled styles if they are extracted, and
  assemble;
- which errors end the call;
- the module: the assembled code, one export for each admitted custom block, and
  a map.
-/

namespace VirtualBlocks

structure TransformOutput where
  code : String
  map : SourceMap
  warnings : List String
deriving DecidableEq

namespace Plugin

variable {σ : Type}

/-- What the reader of components is asked for. -/
def parseOptions (plugin : Plugin σ) : ParseOptions :=
  { needMap := plugin.config.needMap, sourceRoot := plugin.config.sourceRoot }

/-- What the template compiler is told. -/
def templateOptions (plugin : Plugin σ) : TemplateOptions :=
  { isProduction := plugin.mode.isProduction, assetUrls := plugin.config.assetUrls }

/-- The helpers and the mode of the assembly. -/
def assemblyOptions (plugin : Plugin σ) : AssemblyOptions :=
  { normalizer := plugin.config.normalizerModule
    styleInjector := plugin.config.styleInjectorModule
    serverStyleInjector := plugin.config.serverStyleInjectorModule
    isProduction := plugin.mode.isProduction
    isServer := plugin.mode.isServer }

def readComponent (plugin : Plugin σ) (file : Path) (source : String) :
    PluginM σ Descriptor := do
  match ← consult (plugin.collaborators.parse plugin.parseOptions file source) with
  | .ok descriptor => return descriptor
  | .error error => throw (.parse file error)

/-- The block that the style compiler is given: a content that is not empty has
the header of its language before it. -/
def styleInput (plugin : Plugin σ) (style : Block) : PluginM σ Block :=
  if style.content.isEmpty then pure style
  else do
    let content ← plugin.withHeader (style.lang.getD "css") style.content
    return { style with content }

def compileStyle (plugin : Plugin σ) (file : Path) (scope : String) (style : Block) :
    PluginM σ CompiledStyle := do
  let input ← plugin.styleInput style
  let compiled ← consult (plugin.collaborators.compileStyle file scope input)
  if compiled.errors.isEmpty then return compiled
  else throw (.styleCompile file plugin.collaborators.styleCompiler compiled.errors)

/-- The compiled styles, in order, up to the first one with errors. -/
def compileStyles (plugin : Plugin σ) (file : Path) (scope : String) :
    List Block → PluginM σ (List CompiledStyle)
  | [] => pure []
  | style :: rest => do
      let compiled ← plugin.compileStyle file scope style
      let others ← plugin.compileStyles file scope rest
      return compiled :: others

/-- The compiled template, its asset references turned into imports. -/
def compileTemplate (plugin : Plugin σ) (file : Path) (template : Block) :
    PluginM σ CompiledTemplate := do
  let compiled ←
    consult (plugin.collaborators.compileTemplate plugin.templateOptions file template)
  if compiled.errors.isEmpty then
    return { compiled with code := Assets.requireToImport compiled.code }
  else throw (.templateCompile file plugin.collaborators.templateCompiler compiled.errors)

/-- The compiled template of a component that has one. -/
def compileTemplate? (plugin : Plugin σ) (file : Path) :
    Option Block → PluginM σ (Option CompiledTemplate)
  | none => pure none
  | some template => do
      let compiled ← plugin.compileTemplate file template
      return some compiled

/-- Whether compiled styles leave the component module: they are to be
extracted, there are some, and the script does not load them. -/
def extracts (plugin : Plugin σ) (styles : List CompiledStyle) : Bool :=
  plugin.config.extractsCss && !plugin.config.themeLoading && !styles.isEmpty

/-- The parts of the component module, before the hook has seen them. -/
def assemblyInput (plugin : Plugin σ) (file : Path) (scope : String)
    (descriptor : Descriptor) (styles : List CompiledStyle)
    (template : Option CompiledTemplate) : AssemblyInput :=
  let entry := plugin.entryScript file descriptor styles
  let paired := descriptor.styles.zip styles
  let imports := if plugin.extracts styles then plugin.styleImports file 0 paired else []
  let script := entry ++ String.join (imports.map ("\n" ++ ·))
  { scopeId := scope
    styles :=
      if plugin.config.themeLoading then []
      else if plugin.extracts styles then keptStyles paired
      else styles
    template
    script := { code := String.ofList (Text.unindent script.toList) } }

/-- The parts as the hook leaves them. -/
def runBeforeAssembly (plugin : Plugin σ) (input : AssemblyInput) :
    PluginM σ AssemblyInput :=
  match plugin.beforeAssembly with
  | none => pure input
  | some hook => consult (hook input)

def transformFile (plugin : Plugin σ) (file : Path) (source : String) :
    PluginM σ TransformOutput := do
  let descriptor ← plugin.readComponent file source
  publish file descriptor
  let scope := scopeId file source plugin.mode.isProduction
  let styles ← plugin.compileStyles file scope descriptor.styles
  let template ← plugin.compileTemplate? file descriptor.template
  if plugin.extracts styles then publish file (withCompiledStyles descriptor styles)
  let input ←
    plugin.runBeforeAssembly (plugin.assemblyInput file scope descriptor styles template)
  let assembled ←
    consult (plugin.collaborators.assemble file input plugin.assemblyOptions)
  let exports := plugin.customExports file 0 descriptor.customBlocks
  return {
    code := assembled.code ++ String.join (exports.map ("\n" ++ ·))
    map := assembled.map.getD .empty
    warnings := (template.map CompiledTemplate.tips).getD [] }

/-- The component module of a file, nothing when the file is not handled. -/
def transform (plugin : Plugin σ) (source filename : String) :
    PluginM σ (Option TransformOutput) :=
  if plugin.filter.accepts filename then
    some <$> plugin.transformFile ⟨filename⟩ source
  else pure none

end Plugin

end VirtualBlocks
