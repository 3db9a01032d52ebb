import Mathlib.Data.List.Forall2
import VirtualBlocks.Proofs.Plugin.Steps

/-!
Contract: the outcomes of transforming a component.

Owns:
- the compiling of a component as one step, and the assembling of its module as
  another one that never fails;
- the four ways a transform ends: the file is not handled, cannot be read,
  cannot be compiled, or gets its module;
- the descriptor that stays behind: none unless the file was read, and the one
  with compiled styles only after a transform that got past both compilers.
-/

namespace VirtualBlocks.Plugin

variable {σ : Type}

/-! ## Compiling and assembling as single steps -/

/-- The compiled styles of a component and its compiled template. -/
def compile (plugin : Plugin σ) (file : Path) (source : String) (descriptor : Descriptor) :
    PluginM σ (List CompiledStyle × Option CompiledTemplate) := do
  let scope := scopeId file source plugin.mode.isProduction
  let styles ← plugin.compileStyles file scope descriptor.styles
  let template ← plugin.compileTemplate? file descriptor.template
  return (styles, template)

/-- The component module of a component that has been compiled. -/
def finish (plugin : Plugin σ) (file : Path) (source : String) (descriptor : Descriptor)
    (styles : List CompiledStyle) (template : Option CompiledTemplate) :
    PluginM σ TransformOutput := do
  let scope := scopeId file source plugin.mode.isProduction
  let input ←
    plugin.runBeforeAssembly (plugin.assemblyInput file scope descriptor styles template)
  let assembled ←
    consult (plugin.collaborators.assemble file input plugin.assemblyOptions)
  let exports := plugin.customExports file 0 descriptor.customBlocks
  return {
    code := assembled.code ++ String.join (exports.map ("\n" ++ ·))
    map := assembled.map.getD .empty
    warnings := (template.map CompiledTemplate.tips).getD [] }

theorem ignoresStore_compile (plugin : Plugin σ) (file : Path) (source : String)
    (descriptor : Descriptor) : IgnoresStore (plugin.compile file source descriptor) := by
  refine .bind (ignoresStore_compileStyles plugin file _ descriptor.styles) (fun styles => ?_)
  exact .bind (ignoresStore_compileTemplate? plugin file _) (fun template => .pure _)

theorem ignoresStore_finish (plugin : Plugin σ) (file : Path) (source : String)
    (descriptor : Descriptor) (styles : List CompiledStyle)
    (template : Option CompiledTemplate) :
    IgnoresStore (plugin.finish file source descriptor styles template) := by
  refine .bind (ignoresStore_runBeforeAssembly plugin _) (fun input => ?_)
  exact .bind (.consult _) (fun assembled => .pure _)

theorem runBeforeAssembly_succeeds (plugin : Plugin σ) (input : AssemblyInput)
    (session : Session σ) :
    ∃ changed later, plugin.runBeforeAssembly input session = (.ok changed, later) := by
  unfold runBeforeAssembly
  cases plugin.beforeAssembly with
  | none => exact ⟨input, session, rfl⟩
  | some hook => exact ⟨_, _, rfl⟩

/-- The exports of custom blocks stand behind the assembled code. -/
def exportsOf (plugin : Plugin σ) (file : Path) (descriptor : Descriptor) : String :=
  String.join ((plugin.customExports file 0 descriptor.customBlocks).map ("\n" ++ ·))

/-- Assembling a module consults the hook and then the assembler. -/
theorem exists_assembled (plugin : Plugin σ) (file : Path) (source : String)
    (descriptor : Descriptor) (styles : List CompiledStyle)
    (template : Option CompiledTemplate) (session : Session σ) :
    ∃ parts hooked assembled later,
      alone (plugin.runBeforeAssembly (plugin.assemblyInput file
        (scopeId file source plugin.mode.isProduction) descriptor styles template))
          session.world = (.ok parts, hooked) ∧
      plugin.collaborators.assemble file parts plugin.assemblyOptions hooked =
        (assembled, later) ∧
      plugin.finish file source descriptor styles template session =
        (.ok
          { code := assembled.code ++ plugin.exportsOf file descriptor
            map := assembled.map.getD .empty
            warnings := (template.map CompiledTemplate.tips).getD [] },
          { session with world := later }) := by
  let input := plugin.assemblyInput file (scopeId file source plugin.mode.isProduction)
    descriptor styles template
  obtain ⟨parts, hookSession, hooks⟩ :=
    plugin.runBeforeAssembly_succeeds input ⟨.empty, session.world⟩
  let answer := plugin.collaborators.assemble file parts plugin.assemblyOptions
    hookSession.world
  have hooksAlone : alone (plugin.runBeforeAssembly input) session.world =
      (.ok parts, hookSession.world) := by
    unfold alone
    rw [hooks]
  have hooksHere : plugin.runBeforeAssembly input session =
      (.ok parts, { session with world := hookSession.world }) := by
    rw [(ignoresStore_runBeforeAssembly plugin input).apply, hooksAlone]
  refine ⟨parts, hookSession.world, answer.1, answer.2, hooksAlone, rfl, ?_⟩
  unfold finish
  rw [bind_of_ok hooksHere]
  exact bind_of_ok (consult_of_answer rfl)

theorem finish_succeeds (plugin : Plugin σ) (file : Path) (source : String)
    (descriptor : Descriptor) (styles : List CompiledStyle)
    (template : Option CompiledTemplate) (session : Session σ) :
    ∃ output later, plugin.finish file source descriptor styles template session =
      (.ok output, later) ∧
      ∃ assembled, output.code = assembled ++ plugin.exportsOf file descriptor := by
  obtain ⟨parts, hooked, assembled, later, -, -, finished⟩ :=
    plugin.exists_assembled file source descriptor styles template session
  exact ⟨_, _, finished, _, rfl⟩

theorem transformFile_eq (plugin : Plugin σ) (file : Path) (source : String) :
    plugin.transformFile file source = (do
      let descriptor ← plugin.readComponent file source
      publish file descriptor
      let (styles, template) ← plugin.compile file source descriptor
      if plugin.extracts styles then publish file (withCompiledStyles descriptor styles)
      plugin.finish file source descriptor styles template) := by
  unfold transformFile compile finish
  simp only [bind_assoc, pure_bind]

/-! ## The descriptor with compiled styles -/

/-- A component whose style at each position is served as the code at that
position. -/
def withStyleCodes (descriptor : Descriptor) (codes : List String) : Descriptor :=
  { descriptor with
    styles :=
      descriptor.styles.mapIdx (fun position style => { style with code := codes[position]? }) }

/-- The descriptor that stays current after both compilers have succeeded, the
styles with these codes. -/
def recorded (plugin : Plugin σ) (descriptor : Descriptor) (codes : List String) : Descriptor :=
  if plugin.config.extractsCss && !plugin.config.themeLoading then
    withStyleCodes descriptor codes
  else descriptor

theorem withCompiledStyles_eq (descriptor : Descriptor) (styles : List CompiledStyle)
    (sameLength : styles.length = descriptor.styles.length) :
    withCompiledStyles descriptor styles =
      withStyleCodes descriptor (styles.map CompiledStyle.code) := by
  unfold withCompiledStyles withStyleCodes
  congr 1
  refine List.ext_getElem ?_ (fun position inZipped inIndexed => ?_)
  · simp [sameLength]
  · have inStyles : position < styles.length := by
      simp only [List.length_mapIdx] at inIndexed
      omega
    simp [inStyles]

theorem recorded_eq (plugin : Plugin σ) (descriptor : Descriptor) (styles : List CompiledStyle)
    (sameLength : styles.length = descriptor.styles.length) :
    plugin.recorded descriptor (styles.map CompiledStyle.code) =
      if plugin.extracts styles then withCompiledStyles descriptor styles else descriptor := by
  unfold recorded extracts
  rw [withCompiledStyles_eq descriptor styles sameLength]
  cases styles with
  | cons style rest => simp
  | nil =>
      -- Without styles there is nothing to write back.
      have noStyles : descriptor.styles = [] := List.eq_nil_of_length_eq_zero sameLength.symm
      have unchanged : withStyleCodes descriptor [] = descriptor := by
        rcases descriptor with ⟨template, script, styles, customBlocks⟩
        cases noStyles
        rfl
      simp [unchanged]

/-- A block is compiled as this style in some session. -/
def CompilesTo (plugin : Plugin σ) (file : Path) (scope : String) (block : Block)
    (style : CompiledStyle) : Prop :=
  ∃ before later, plugin.compileStyle file scope block before = (.ok style, later)

theorem compilesTo_of_compileStyles {plugin : Plugin σ} {file : Path} {scope : String}
    {blocks : List Block} {session later : Session σ} {styles : List CompiledStyle}
    (compiled : plugin.compileStyles file scope blocks session = (.ok styles, later)) :
    List.Forall₂ (plugin.CompilesTo file scope) blocks styles := by
  induction blocks generalizing session styles with
  | nil =>
      cases compiled
      exact .nil
  | cons block rest inductionHypothesis =>
      obtain ⟨style, middle, compiledFirst, remaining⟩ := exists_of_bind_eq_ok compiled
      obtain ⟨others, last, compiledRest, finished⟩ := exists_of_bind_eq_ok remaining
      cases finished
      exact .cons ⟨session, middle, compiledFirst⟩ (inductionHypothesis compiledRest)

/-- Compiling a component compiles its styles first. -/
theorem compileStyles_of_compile {plugin : Plugin σ} {file : Path} {source : String}
    {descriptor : Descriptor} {session later : Session σ} {styles : List CompiledStyle}
    {template : Option CompiledTemplate}
    (compiled : plugin.compile file source descriptor session =
      (.ok (styles, template), later)) :
    ∃ middle, plugin.compileStyles file (scopeId file source plugin.mode.isProduction)
      descriptor.styles session = (.ok styles, middle) := by
  obtain ⟨first, middle, compiledStyles, remaining⟩ := exists_of_bind_eq_ok compiled
  obtain ⟨second, last, -, finished⟩ := exists_of_bind_eq_ok remaining
  cases finished
  exact ⟨middle, compiledStyles⟩

theorem length_eq_of_compile {plugin : Plugin σ} {file : Path} {source : String}
    {descriptor : Descriptor} {session later : Session σ} {styles : List CompiledStyle}
    {template : Option CompiledTemplate}
    (compiled : plugin.compile file source descriptor session =
      (.ok (styles, template), later)) :
    styles.length = descriptor.styles.length := by
  obtain ⟨middle, compiledStyles⟩ := compileStyles_of_compile compiled
  exact (compilesTo_of_compileStyles compiledStyles).length_eq.symm

/-! ## The ways a transform ends -/

variable {plugin : Plugin σ} {file : Path} {source filename : String}
variable {descriptor : Descriptor} {session : Session σ} {world later : σ}

theorem transform_of_rejected (rejected : plugin.filter.accepts filename = false) :
    plugin.transform source filename session = (.ok none, session) := by
  unfold transform
  rw [rejected]
  rfl

theorem transform_of_accepted (accepted : plugin.filter.accepts filename = true) :
    plugin.transform source filename session =
      ((plugin.transformFile ⟨filename⟩ source session).1.map some,
        (plugin.transformFile ⟨filename⟩ source session).2) := by
  unfold transform
  rw [if_pos accepted]
  rcases outcome : plugin.transformFile ⟨filename⟩ source session with ⟨error | output, later⟩
  · exact bind_of_error outcome
  · exact bind_of_ok outcome

theorem transformFile_of_unread {error : ParseError}
    (unread : plugin.collaborators.parse plugin.parseOptions file source session.world =
      (.error error, world)) :
    plugin.transformFile file source session =
      (.error (.parse file error), { session with world }) := by
  rw [transformFile_eq]
  refine bind_of_error ?_
  exact bind_of_ok (consult_of_answer unread)

/-- Behind a component that was read, its descriptor is current while it is
compiled. -/
theorem transformFile_of_read
    (read : plugin.collaborators.parse plugin.parseOptions file source session.world =
      (.ok descriptor, world)) :
    plugin.transformFile file source session =
      (do
        let (styles, template) ← plugin.compile file source descriptor
        if plugin.extracts styles then publish file (withCompiledStyles descriptor styles)
        plugin.finish file source descriptor styles template : PluginM σ TransformOutput)
        ⟨session.store.insert file descriptor, world⟩ := by
  have readHere : plugin.readComponent file source session =
      (.ok descriptor, { session with world }) :=
    bind_of_ok (consult_of_answer read)
  rw [transformFile_eq, bind_of_ok readHere]
  exact bind_of_ok rfl

theorem transformFile_of_uncompiled {error : PluginError}
    (read : plugin.collaborators.parse plugin.parseOptions file source session.world =
      (.ok descriptor, world))
    (uncompiled : alone (plugin.compile file source descriptor) world = (.error error, later)) :
    plugin.transformFile file source session =
      (.error error, ⟨session.store.insert file descriptor, later⟩) := by
  rw [transformFile_of_read read]
  refine bind_of_error ?_
  rw [(ignoresStore_compile plugin file source descriptor).apply, uncompiled]

theorem transformFile_of_compiled {styles : List CompiledStyle}
    {template : Option CompiledTemplate}
    (read : plugin.collaborators.parse plugin.parseOptions file source session.world =
      (.ok descriptor, world))
    (compiled : alone (plugin.compile file source descriptor) world =
      (.ok (styles, template), later)) :
    plugin.transformFile file source session =
      plugin.finish file source descriptor styles template
        ⟨session.store.insert file
          (plugin.recorded descriptor (styles.map CompiledStyle.code)), later⟩ := by
  have compiledHere : plugin.compile file source descriptor
      ⟨session.store.insert file descriptor, world⟩ =
        (.ok (styles, template), ⟨session.store.insert file descriptor, later⟩) := by
    rw [(ignoresStore_compile plugin file source descriptor).apply, compiled]
  rw [transformFile_of_read read, bind_of_ok compiledHere,
    recorded_eq plugin descriptor styles (length_eq_of_compile compiledHere)]
  dsimp only
  by_cases extracted : plugin.extracts styles = true
  · rw [if_pos extracted, if_pos extracted,
      ← session.store.insert_insert file descriptor (withCompiledStyles descriptor styles)]
    exact bind_of_ok rfl
  · rw [if_neg extracted, if_neg extracted]

end VirtualBlocks.Plugin
