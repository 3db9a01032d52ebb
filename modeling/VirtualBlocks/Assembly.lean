import VirtualBlocks.Compiled
import VirtualBlocks.Text.Blank
import VirtualBlocks.Text.Lines
import VirtualBlocks.Text.Search

/-!
Contract: the component module, put together from its parts.

Owns:
- the bindings of a module and the declarations that make them;
- the sections of a module in their order: helpers, script, template, styles,
  scope, module identifier, functional mark, and the call that joins them;
- the lines of each section.

Does not own: compiling any of the parts, and the exports behind the module.
-/

namespace VirtualBlocks.Assembly

open VirtualBlocks.Text

/-- An optional text as an expression. -/
def optionalText : Option String → String
  | some content => Json.quoted content
  | none => "undefined"

/-! ## Helpers -/

/-- The declaration of a helper: an import for `~path`, else the expression
itself. -/
def helperLine (binding module : String) : String :=
  match module.toList with
  | '~' :: path => "import " ++ binding ++ " from " ++ Json.quoted (String.ofList path)
  | _ => "const " ++ binding ++ " = " ++ module

def injectorBinding (options : AssemblyOptions) : String :=
  if options.isServer then "__vue_create_injector_ssr__" else "__vue_create_injector__"

def injectorModule (options : AssemblyOptions) : String :=
  if options.isServer then options.serverStyleInjector else options.styleInjector

/-- The declarations of the helpers. Without styles there is no injector. -/
def helperLines (input : AssemblyInput) (options : AssemblyOptions) : List String :=
  helperLine "__vue_normalize__" options.normalizer ::
    (if input.styles.isEmpty then []
    else [helperLine (injectorBinding options) (injectorModule options)])

/-! ## Script -/

/-- What a script line exports as the default, if it does. -/
def defaultExport? (line : List Char) : Option (List Char) :=
  let start := "export default ".toList
  let trimmed := trimStart line
  if start.isPrefixOf trimmed then some (trimmed.drop start.length) else none

/-- The lines of a script, the first default export bound to a name instead. A
script without one binds an empty object at its end. -/
def scriptLines : List (List Char) → List (List Char)
  | [] => ["const __vue_script__ = \x7b\x7d".toList]
  | line :: rest =>
      match defaultExport? line with
      | some expression => ("const __vue_script__ = ".toList ++ expression) :: rest
      | none => line :: scriptLines rest

/-! ## Template -/

/-- Whether a line of render code exports the render functions. -/
def exportsRender (line : List Char) : Bool :=
  let trimmed := trimStart line
  "export \x7b".toList.isPrefixOf trimmed && (cutThrough? "render".toList trimmed).isSome

/-- A line of render code with the names of the render functions made private to
the module. -/
def renameRender (line : List Char) : List Char :=
  let declared := replaceAll "var render =".toList "var __vue_render__ =".toList line
  let static :=
    replaceAll "var staticRenderFns =".toList "var __vue_staticRenderFns__ =".toList declared
  replaceAll "render._withStripped".toList "__vue_render__._withStripped".toList static

def templateLines (code : List Char) : List (List Char) :=
  ((lines code).filter (fun line => !exportsRender line)).map renameRender

/-! ## Styles -/

/-- The map of a style as an expression. Production has no maps. -/
def mapText (production : Bool) : Option SourceMap → String
  | some map => if production then "undefined" else map.toJson.toCompact
  | none => "undefined"

def injectLine (scopeId : String) (production : Bool) (index : Nat) (style : CompiledStyle) :
    String :=
  "  inject(" ++ Json.quoted (scopeId ++ "_" ++ toString index) ++ ", \x7b source: " ++
    Json.quoted style.code ++ ", map: " ++ mapText production style.map ++ ", media: " ++
    optionalText style.media ++ " \x7d)"

/-- The line that binds the class names of a style module. -/
def moduleLine (name : String) (modules : Table String) : String :=
  "  Object.defineProperty(this, " ++ Json.quoted name ++ ", \x7b value: " ++
    (Json.table Json.string modules).toCompact ++ " \x7d)"

/-- The lines of one style: its injection unless it has no code, and its class
names if it has a name and a table for them. -/
def styleLines (scopeId : String) (production : Bool) (index : Nat) (style : CompiledStyle) :
    List String :=
  (if style.code.isEmpty then [] else [injectLine scopeId production index style]) ++
    (match style.moduleName, style.modules with
    | some name, some modules => [moduleLine name modules]
    | _, _ => [])

/-- The lines of all styles, of which the first one has the position `index`. -/
def stylesFrom (scopeId : String) (production : Bool) (index : Nat) :
    List CompiledStyle → List String
  | [] => []
  | style :: rest =>
      styleLines scopeId production index style ++ stylesFrom scopeId production (index + 1) rest

def styleSection (scopeId : String) (production : Bool) (styles : List CompiledStyle) :
    List String :=
  if styles.isEmpty then ["const __vue_inject_styles__ = undefined"]
  else
    ["const __vue_inject_styles__ = function (inject) \x7b", "  if (!inject) return"] ++
      stylesFrom scopeId production 0 styles ++ ["\x7d"]

/-! ## The module -/

/-- The sections that say what the component is. -/
def identityLines (input : AssemblyInput) (options : AssemblyOptions) : List String :=
  let hasScope := input.styles.any CompiledStyle.isScoped
  let functional := (input.template.map CompiledTemplate.functional).getD false
  ["/* scoped */",
    "const __vue_scope_id__ = " ++ optionalText (if hasScope then some input.scopeId else none),
    "/* module identifier */",
    "const __vue_module_identifier__ = " ++
      optionalText (if options.isServer then some input.scopeId else none),
    "/* functional template */",
    "const __vue_is_functional_template__ = " ++ (if functional then "true" else "false")]

/-- The arguments of the call that joins the parts. The injector stands in the
place of its platform. -/
def arguments (input : AssemblyInput) (options : AssemblyOptions) : List String :=
  let injector (server : Bool) :=
    if !input.styles.isEmpty && options.isServer == server then injectorBinding options
    else "undefined"
  [if input.template.isSome then
      "\x7b render: __vue_render__, staticRenderFns: __vue_staticRenderFns__ \x7d"
    else "\x7b\x7d",
    "__vue_inject_styles__", "__vue_script__", "__vue_scope_id__",
    "__vue_is_functional_template__", "__vue_module_identifier__", "false",
    injector false, injector true]

/-- The call that joins the parts, and the export of its result. -/
def componentLines (input : AssemblyInput) (options : AssemblyOptions) : List String :=
  ["/* component normalizer */",
    "const __vue_component__ = /*#__PURE__*/__vue_normalize__("] ++
    (arguments input options).map (fun argument => "  " ++ argument ++ ",") ++
    ["  undefined", ")", "", "export default __vue_component__"]

def moduleLines (input : AssemblyInput) (options : AssemblyOptions) : List (List Char) :=
  (helperLines input options).map String.toList ++
    "/* script */".toList :: scriptLines (lines input.script.code.toList) ++
    "/* template */".toList ::
      (match input.template with
      | some template => templateLines template.code.toList
      | none => []) ++
    "/* style */".toList ::
      (styleSection input.scopeId options.isProduction input.styles).map String.toList ++
    (identityLines input options).map String.toList ++
    (componentLines input options).map String.toList

/-- The component module of some parts. Its map is that of the script. -/
def assemble (input : AssemblyInput) (options : AssemblyOptions) : AssembledModule :=
  { code := String.ofList (writeLines (moduleLines input options))
    map := input.script.map }

end VirtualBlocks.Assembly
