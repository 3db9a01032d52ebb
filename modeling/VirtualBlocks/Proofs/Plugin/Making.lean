import VirtualBlocks.Proofs.Plugin.Runs

/-!
Contract: the steps of a transform that gave a module.

Owns:
- what each of the steps gave, as data, and what it means that they were taken;
- that a transform that gave a module has taken all of them.

Does not own: transforms that end with an error (`Proofs.Plugin.Failures`).
-/

namespace VirtualBlocks.Plugin

variable {σ : Type}

/-- What the steps of a transform gave, and the state of the collaborators behind each of
them: the component that was read, its compiled styles and template, the parts as the hook
has left them, and the assembled module. -/
structure Making (σ : Type) where
  descriptor : Descriptor
  read : σ
  styles : List CompiledStyle
  template : Option CompiledTemplate
  compiled : σ
  parts : AssemblyInput
  hooked : σ
  assembled : AssembledModule

/-- The steps were taken in a transform that led from one state to another. -/
structure Making.IsTrue (plugin : Plugin σ) (source filename : String) (world later : σ)
    (making : Making σ) : Prop where
  parsed : plugin.parsed? source filename world = some (making.descriptor, making.read)
  compiles : alone (plugin.compile ⟨filename⟩ source making.descriptor) making.read =
    (.ok (making.styles, making.template), making.compiled)
  hooks : alone (plugin.runBeforeAssembly (plugin.assemblyInput ⟨filename⟩
      (scopeId ⟨filename⟩ source plugin.mode.isProduction) making.descriptor making.styles
      making.template)) making.compiled = (.ok making.parts, making.hooked)
  assembles : plugin.collaborators.assemble ⟨filename⟩ making.parts plugin.assemblyOptions
    making.hooked = (making.assembled, later)

/-- Without a hook the parts stay as they are. -/
theorem Making.IsTrue.parts_eq {plugin : Plugin σ} {source filename : String} {world later : σ}
    {making : Making σ} (isTrue : making.IsTrue plugin source filename world later)
    (noHook : plugin.beforeAssembly = none) :
    making.parts =
      plugin.assemblyInput ⟨filename⟩ (scopeId ⟨filename⟩ source plugin.mode.isProduction)
        making.descriptor making.styles making.template := by
  have hooks := isTrue.hooks
  unfold alone runBeforeAssembly at hooks
  rw [noHook] at hooks
  exact (Except.ok.inj (Prod.mk.inj hooks).1).symm

/-- The styles of the module are those that both compilers got past. -/
theorem Making.IsTrue.compiledStyles?_eq {plugin : Plugin σ} {source filename : String}
    {world later : σ} {making : Making σ}
    (isTrue : making.IsTrue plugin source filename world later) :
    plugin.compiledStyles? source filename making.descriptor making.read =
      some making.styles := by
  unfold compiledStyles?
  rw [isTrue.compiles]

/-- The descriptor that was read stays current, with the compiled styles if they are
extracted. -/
theorem Making.IsTrue.current {plugin : Plugin σ} {source filename : String}
    {session : Session σ} {later : σ} {making : Making σ}
    (isTrue : making.IsTrue plugin source filename session.world later) :
    (plugin.transform source filename session).2.store.get? ⟨filename⟩ =
      some (plugin.recorded making.descriptor (making.styles.map CompiledStyle.code)) := by
  have stored := (transform_of_compiledStyles?_eq_some isTrue.parsed isTrue.compiledStyles?_eq).2
  rw [stored, Store.get?_insert]
  exact if_pos rfl

/-- A transform that gave a module has taken all the steps, and its code is the assembled
one with the exports behind it. -/
theorem exists_making {plugin : Plugin σ} {source filename : String} {session : Session σ}
    {output : TransformOutput}
    (succeeded : (plugin.transform source filename session).1 = .ok (some output)) :
    ∃ making : Making σ,
      making.IsTrue plugin source filename session.world
        (plugin.transform source filename session).2.world ∧
      output.code = making.assembled.code ++ plugin.exportsOf ⟨filename⟩ making.descriptor := by
  cases parsed : plugin.parsed? source filename session.world with
  | none => exact absurd succeeded ((transform_of_parsed?_eq_none parsed).1 output)
  | some both =>
      obtain ⟨descriptor, read⟩ := both
      obtain ⟨accepted, readHere⟩ := accepted_of_parsed? parsed
      rw [transform_of_accepted accepted] at succeeded ⊢
      rcases outcome : alone (plugin.compile ⟨filename⟩ source descriptor) read with
        ⟨error | ⟨styles, template⟩, compiled⟩
      · rw [transformFile_of_uncompiled readHere outcome] at succeeded
        cases succeeded
      · rw [transformFile_of_compiled readHere outcome] at succeeded ⊢
        obtain ⟨parts, hooked, assembled, later, hooks, assembles, finished⟩ :=
          plugin.exists_assembled ⟨filename⟩ source descriptor styles template
            ⟨session.store.insert ⟨filename⟩
              (plugin.recorded descriptor (styles.map CompiledStyle.code)), compiled⟩
        rw [finished] at succeeded ⊢
        obtain rfl := Option.some.inj (Except.ok.inj succeeded)
        exact ⟨{ descriptor, read, styles, template, compiled, parts, hooked, assembled },
          ⟨parsed, outcome, hooks, assembles⟩, rfl⟩

end VirtualBlocks.Plugin
