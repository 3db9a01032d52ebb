import VirtualBlocks.Proofs.Plugin.Served
import VirtualBlocks.Proofs.Text.TemplateLiteral

/-!
Contract: styles that are loaded with the theme.

Owns:
- the call that loads the codes of all styles, and that the entry script of a
  component holds it exactly when the component has a script;
- what the call is given when it is read: the codes of the styles, whatever is in them;
- the parts of a module in theme loading mode: no styles, and nothing of them at
  all without a script.

Does not own: the rules of reading between backquotes (`Proofs.Text.TemplateLiteral`).
-/

namespace VirtualBlocks.Plugin

variable {σ : Type}

/-- The call that loads styles: their codes in order, one below the other, as they
are written between backquotes, and a line feed behind them. -/
def themeCall (styles : List CompiledStyle) : List Char :=
  "loadStyles(`".toList ++
    Text.escapeTemplateLiteral ("\n".intercalate (styles.map CompiledStyle.code)).toList ++
    "\n`)".toList

theorem themeCall_infix_loadStylesLine (styles : List CompiledStyle) :
    themeCall styles <:+: (loadStylesLine styles).toList := by
  refine ⟨"script.beforeCreate = () => \x7b".toList, "\x7d".toList, ?_⟩
  unfold themeCall loadStylesLine
  simp

/-- Between the backquotes of the statement that loads the styles stand their codes, one
below the other, and a line feed: reading stops at the closing backquote and nowhere
before. -/
theorem readTemplate_loadStylesLine (styles : List CompiledStyle) :
    let css := ("\n".intercalate (styles.map CompiledStyle.code)).toList
    ∃ inside written,
      (loadStylesLine styles).toList =
          "script.beforeCreate = () => \x7bloadStyles(`".toList ++ inside ∧
        Text.readTemplate inside = (written, .closing ")\x7d".toList) ∧
        Text.removeEscapes written = css ++ ['\n'] := by
  intro css
  have behind : ("\n`)\x7d".toList).head? ≠ some '{' := by decide
  refine ⟨Text.escapeTemplateLiteral css ++ "\n`)\x7d".toList,
    Text.escapeTemplateLiteral css ++ ['\n'], ?_, ?_, ?_⟩
  · unfold loadStylesLine
    simp [css]
  · rw [Text.readTemplate_escapeTemplateLiteral_append (Text.not_makesSubstitution behind)]
    rfl
  · rw [Text.removeEscapes_escapeTemplateLiteral_append]
    rfl

theorem infix_intercalate_of_mem {separator part : List Char} {parts : List (List Char)}
    (member : part ∈ parts) : part <:+: separator.intercalate parts := by
  induction parts with
  | nil => contradiction
  | cons first rest inductionHypothesis =>
      cases rest with
      | nil =>
          obtain rfl := List.mem_singleton.1 member
          exact ⟨[], [], by rw [List.intercalate_singleton, List.nil_append, List.append_nil]⟩
      | cons next others =>
          rw [List.intercalate_cons_cons]
          rcases List.mem_cons.1 member with rfl | inRest
          · rw [List.append_assoc]
            exact (List.prefix_append _ _).isInfix
          · exact (inductionHypothesis inRest).trans (List.suffix_append _ _).isInfix

section Themed

variable {plugin : Plugin σ} (themed : plugin.config.themeLoading = true)
include themed

theorem loadStylesLine_mem_entryLines (file : Path) (script : Block)
    (styles : List CompiledStyle) :
    loadStylesLine styles ∈ plugin.entryLines file script styles := by
  unfold entryLines
  simp [themed]

/-- The entry script loads the styles exactly when there is a script. -/
theorem themeCall_infix_entryScript_iff (file : Path) (descriptor : Descriptor)
    (styles : List CompiledStyle) :
    themeCall styles <:+: (plugin.entryScript file descriptor styles).toList ↔
      descriptor.script.isSome = true := by
  unfold entryScript
  cases descriptor.script with
  | none =>
      have empty : ¬ themeCall styles <:+: [] := by
        rw [List.infix_nil]
        unfold themeCall
        simp
      exact ⟨fun inside => absurd inside empty, fun present => absurd present (by decide)⟩
  | some script =>
      have line : (loadStylesLine styles).toList <:+:
          ("\n".intercalate (plugin.entryLines file script styles)).toList := by
        rw [String.toList_intercalate]
        exact infix_intercalate_of_mem
          (List.mem_map_of_mem (loadStylesLine_mem_entryLines themed file script styles))
      exact ⟨fun _ => rfl, fun _ => (themeCall_infix_loadStylesLine styles).trans line⟩

theorem assemblyInput_of_themed (file : Path) (scope : String) (descriptor : Descriptor)
    (styles : List CompiledStyle) (template : Option CompiledTemplate) :
    plugin.assemblyInput file scope descriptor styles template =
      { scopeId := scope
        styles := []
        template
        script :=
          { code := String.ofList
              (Text.unindent (plugin.entryScript file descriptor styles).toList) } } := by
  have inline : plugin.extracts styles = false := by
    unfold extracts
    simp [themed]
  unfold assemblyInput
  simp [themed, inline]

/-- In theme loading mode the styles of a component are no part of its module, and
the entry script loads the codes of all of them exactly when the component has a
script. Without a script the parts of the module are those of a component without
styles: whatever the styles were compiled to is lost. -/
theorem themed_styles_loaded_iff (file : Path) (scope : String) (descriptor : Descriptor)
    (styles : List CompiledStyle) (template : Option CompiledTemplate) :
    let entry := plugin.entryScript file descriptor styles
    let parts := plugin.assemblyInput file scope descriptor styles template
    parts.styles = [] ∧
      parts.script.code = String.ofList (Text.unindent entry.toList) ∧
      (themeCall styles <:+: entry.toList ↔ descriptor.script.isSome = true) ∧
      (descriptor.script = none →
        parts = plugin.assemblyInput file scope descriptor [] template) := by
  intro entry parts
  have isParts := assemblyInput_of_themed themed file scope descriptor styles template
  refine ⟨congrArg AssemblyInput.styles isParts,
    congrArg (fun parts => parts.script.code) isParts,
    themeCall_infix_entryScript_iff themed file descriptor styles, ?_⟩
  intro noScript
  have empty (others : List CompiledStyle) :
      plugin.entryScript file descriptor others = "" := by
    unfold entryScript
    rw [noScript]
  exact isParts.trans (by rw [assemblyInput_of_themed themed, empty, empty])

end Themed

/-- A plugin that loads styles with the theme. -/
def themed : Plugin Unit :=
  { verbatim with config := { needMap := false, themeLoading := true } }

/-- The style of a component with a script is loaded by its entry script. -/
theorem themed_styles_loaded_with_script :
    let component : Descriptor := { script := some {}, styles := [{ content := "a" }] }
    themed.config.themeLoading = true ∧
      themeCall [{ code := "a" }] <:+:
        (themed.entryScript ⟨"/src/App.vue"⟩ component [{ code := "a" }]).toList := by
  intro component
  have loads := @themed_styles_loaded_iff _ themed rfl ⟨"/src/App.vue"⟩ "" component
    [{ code := "a" }] none
  exact ⟨rfl, loads.2.2.1.2 rfl⟩

/-- The compiled style of a component without a script is neither among the parts of its
module nor in the entry script, which is empty. -/
theorem exists_lost_style :
    let style : CompiledStyle := { code := "a" }
    let component : Descriptor := { styles := [{ tag := "style", content := "a" }] }
    let parts := themed.assemblyInput ⟨"/src/App.vue"⟩ "" component [style] none
    themed.config.themeLoading = true ∧
      themed.parsed? "<style>a</style>" "/src/App.vue" () = some (component, ()) ∧
      themed.compiledStyles? "<style>a</style>" "/src/App.vue" component () = some [style] ∧
      parts.styles = [] ∧ parts.script.code = "" ∧
      ¬ themeCall [style] <:+:
        (themed.entryScript ⟨"/src/App.vue"⟩ component [style]).toList := by
  decide +kernel

end VirtualBlocks.Plugin
