import VirtualBlocks.Plugin.Basic
import VirtualBlocks.ScopeId
import VirtualBlocks.Text.TemplateLiteral

/-!
Contract: the statements that a component module refers to its blocks by.

Owns:
- the entry script, which re-exports the script block, loads the styles in theme
  loading mode, and names the file if it is to be exposed;
- the imports of extracted styles, and what stays of a style that is not
  extracted;
- the exports of custom blocks.
-/

namespace VirtualBlocks.Plugin

variable {σ : Type}

def inQuotes (id : String) : String :=
  "'" ++ id ++ "'"

/-- The statement that loads the styles with the theme. -/
def loadStylesLine (styles : List CompiledStyle) : String :=
  let css := "\n".intercalate (styles.map CompiledStyle.code)
  "script.beforeCreate = () => \x7bloadStyles(`" ++
    String.ofList (Text.escapeTemplateLiteral css.toList) ++ "\n`)\x7d"

/-- The statements of the entry script for a script block. -/
def entryLines (plugin : Plugin σ) (file : Path) (script : Block)
    (styles : List CompiledStyle) : List String :=
  let id := inQuotes (VirtualId.ofBlock plugin.languages file script .script none)
  let themed := plugin.config.themeLoading
  ["export * from " ++ id] ++
    (if themed then ["import \x7b loadStyles \x7d from '@microsoft/load-themed-styles'"]
    else []) ++
    ["import script from " ++ id] ++
    (if themed then [loadStylesLine styles] else []) ++
    ["export default script"] ++
    (if plugin.config.exposeFilename then
      ["script.__file = " ++ Json.quoted (file.shownName plugin.mode.isProduction)]
    else [])

/-- The entry script of a component; empty when it has no script block. -/
def entryScript (plugin : Plugin σ) (file : Path) (descriptor : Descriptor)
    (styles : List CompiledStyle) : String :=
  match descriptor.script with
  | none => ""
  | some script => "\n".intercalate (plugin.entryLines file script styles)

/-! ## Extracted styles -/

/-- Whether a compiled style leaves the component module when styles are
extracted: it belongs to no scope and is no style module. -/
def isPlain (block : Block) (style : CompiledStyle) : Bool :=
  !style.isModule && !block.isScoped

theorem isPlain_iff {block : Block} {style : CompiledStyle} :
    isPlain block style = true ↔ style.isModule = false ∧ block.isScoped = false := by
  unfold isPlain
  rw [Bool.and_eq_true, Bool.not_eq_true', Bool.not_eq_true']

theorem not_isPlain (block : Block) (style : CompiledStyle) :
    (!isPlain block style) = (style.isModule || block.isScoped) := by
  unfold isPlain
  rw [Bool.not_and, Bool.not_not, Bool.not_not]

/-- What stays in the component module of a style that is extracted but not
plain. -/
def withoutCode (style : CompiledStyle) : CompiledStyle :=
  { style with code := "", map := none }

def styleImport (plugin : Plugin σ) (file : Path) (index : Nat) : String :=
  "import " ++
    inQuotes (VirtualId.encode plugin.languages file (some "css") .styles (some index))

/-- The imports of the plain styles, of which the first one has the position
`index`. -/
def styleImports (plugin : Plugin σ) (file : Path) (index : Nat) :
    List (Block × CompiledStyle) → List String
  | [] => []
  | (block, style) :: rest =>
      if isPlain block style then
        plugin.styleImport file index :: plugin.styleImports file (index + 1) rest
      else plugin.styleImports file (index + 1) rest

/-- The styles that stay in the component module. -/
def keptStyles (styles : List (Block × CompiledStyle)) : List CompiledStyle :=
  (styles.filter (fun (block, style) => !isPlain block style)).map
    (fun (_, style) => withoutCode style)

/-- The descriptor that serves the compiled code of each style. -/
def withCompiledStyles (descriptor : Descriptor) (styles : List CompiledStyle) : Descriptor :=
  { descriptor with
    styles :=
      List.zipWith (fun block style => { block with code := some style.code })
        descriptor.styles styles }

/-! ## Custom blocks -/

def customExport (plugin : Plugin σ) (file : Path) (index : Nat) (block : Block) : String :=
  "export * from " ++
    inQuotes (VirtualId.ofBlock plugin.languages file block .customBlocks (some index))

/-- The exports of the admitted custom blocks, of which the first one has the
position `index`. -/
def customExports (plugin : Plugin σ) (file : Path) (index : Nat) : List Block → List String
  | [] => []
  | block :: rest =>
      if plugin.exportsTag block.tag then
        plugin.customExport file index block :: plugin.customExports file (index + 1) rest
      else plugin.customExports file (index + 1) rest

end VirtualBlocks.Plugin
