import VirtualBlocks.Proofs.Plugin.Transform

/-!
Contract: which errors end a transform, and whom it consults until then.

Owns:
- what the collaborators are consulted for, each time with the answer and the state that is
  left;
- the styles that are compiled: in order, each once and behind its header, up to the first
  one with errors;
- the account of a transform, which every transform of a file that is handled has, and how
  its outcome is told from the answers in it.

Does not own: what a transform publishes (`Proofs.Plugin.Runs`).
-/

namespace VirtualBlocks.Plugin

variable {σ : Type}

/-! ## Consultations -/

/-- What a collaborator, a header or the hook is consulted for, and what it answers. -/
inductive Consultation where
  | read (answer : Except ParseError Descriptor)
  | header (lang rendered : String)
  | style (input : Block) (answer : CompiledStyle)
  | template (input : Block) (answer : CompiledTemplate)
  | hook (input answer : AssemblyInput)
  | assembly (input : AssemblyInput) (answer : AssembledModule)

namespace Consultation

/-- The answer is given in one state of the collaborators, and another state is left. -/
def Runs (plugin : Plugin σ) (file : Path) (source : String) (world later : σ) :
    Consultation → Prop
  | read answer =>
      plugin.collaborators.parse plugin.parseOptions file source world = (answer, later)
  | header lang rendered =>
      ∃ header, plugin.headers.get? lang = some header ∧ header.render world = (rendered, later)
  | style input answer =>
      plugin.collaborators.compileStyle file (scopeId file source plugin.mode.isProduction) input
        world = (answer, later)
  | template input answer =>
      plugin.collaborators.compileTemplate plugin.templateOptions file input world =
        (answer, later)
  | hook input answer =>
      ∃ action, plugin.beforeAssembly = some action ∧ action input world = (answer, later)
  | assembly input answer =>
      plugin.collaborators.assemble file input plugin.assemblyOptions world = (answer, later)

/-- A module is put together, after everything was compiled. -/
def Assembles : Consultation → Prop
  | hook _ _ => True
  | assembly _ _ => True
  | _ => False

end Consultation

/-- From one state of the collaborators these consultations, one after the other, lead to
another state. -/
inductive Consults (plugin : Plugin σ) (file : Path) (source : String) :
    List Consultation → σ → σ → Prop where
  | nothing (world : σ) : Consults plugin file source [] world world
  | next {consultation : Consultation} {others : List Consultation} {world middle later : σ}
      (runs : consultation.Runs plugin file source world middle)
      (further : Consults plugin file source others middle later) :
      Consults plugin file source (consultation :: others) world later

/-- A style that was compiled: its block, the header before its content if there was one, and
the answer of the compiler. -/
structure StyleRun where
  block : Block
  header : Option String
  answer : CompiledStyle

namespace StyleRun

def lang (run : StyleRun) : String :=
  run.block.lang.getD "css"

/-- The block that the compiler is given. -/
def input (run : StyleRun) : Block :=
  match run.header with
  | none => run.block
  | some rendered => { run.block with content := rendered ++ run.block.content }

def consultations (run : StyleRun) : List Consultation :=
  (run.header.map (Consultation.header run.lang)).toList ++ [.style run.input run.answer]

/-- A header stands before a content that is not empty if its language has one. -/
def HasHeader (plugin : Plugin σ) (run : StyleRun) : Prop :=
  run.header.isSome = true ↔
    run.block.content ≠ "" ∧ (plugin.headers.get? run.lang).isSome = true

end StyleRun

/-- Styles compiled in order, each of them at most once. All of them have been compiled, or
the last one is the first with errors. -/
structure CompilesInOrder (plugin : Plugin σ) (blocks : List Block) (compiled : List StyleRun)
    (failed : Option StyleRun) : Prop where
  inOrder : (compiled ++ failed.toList).map StyleRun.block <+: blocks
  complete : failed = none → compiled.map StyleRun.block = blocks
  headers : ∀ run ∈ compiled ++ failed.toList, run.HasHeader plugin
  succeeded : ∀ run ∈ compiled, run.answer.errors = []
  stopped : ∀ run, failed = some run → run.answer.errors ≠ []

/-- The styles of blocks that were compiled from one state of the collaborators on: each
block was given to the compiler in order, behind its header, and its style is the answer,
which has no errors. -/
structure AreCompiled (plugin : Plugin σ) (file : Path) (source : String) (world : σ)
    (blocks : List Block) (styles : List CompiledStyle) (runs : List StyleRun) : Prop where
  inOrder : CompilesInOrder plugin blocks runs none
  consults : ∃ later,
    Consults plugin file source (runs.flatMap StyleRun.consultations) world later
  answers : styles = runs.map StyleRun.answer
  each : List.Forall₂
    (plugin.CompilesTo file (scopeId file source plugin.mode.isProduction)) blocks styles

section Steps

variable {plugin : Plugin σ} {file : Path} {source : String} {world middle later : σ}

theorem Consults.append {first second : List Consultation}
    (runs : Consults plugin file source first world middle)
    (further : Consults plugin file source second middle later) :
    Consults plugin file source (first ++ second) world later := by
  induction runs with
  | nothing => exact further
  | next runsFirst _ inductionHypothesis => exact .next runsFirst (inductionHypothesis further)

theorem Consultation.Runs.alone {consultation : Consultation}
    (runs : consultation.Runs plugin file source world later) :
    Consults plugin file source [consultation] world later :=
  .next runs (.nothing later)

variable (plugin file source)

/-- A style gets its header, and nothing else is consulted for it. -/
theorem exists_header (block : Block) (session : Session σ) :
    ∃ header middle, (∀ answer, (StyleRun.mk block header answer).HasHeader plugin) ∧
      Consults plugin file source
        (header.map (Consultation.header (block.lang.getD "css"))).toList session.world middle ∧
      ∀ answer, plugin.styleInput block session =
        (.ok (StyleRun.mk block header answer).input, { session with world := middle }) := by
  unfold StyleRun.HasHeader styleInput
  by_cases empty : block.content = ""
  · have isEmpty : block.content.isEmpty = true := String.isEmpty_iff.2 empty
    refine ⟨none, session.world, ?_, .nothing _, ?_⟩
    · intro answer
      simp [empty]
    · intro answer
      rw [if_pos isEmpty]
      rfl
  · have notEmpty : ¬ block.content.isEmpty = true := fun isEmpty =>
      empty (String.isEmpty_iff.1 isEmpty)
    unfold withHeader
    cases found : plugin.headers.get? (block.lang.getD "css") with
    | none =>
        refine ⟨none, session.world, ?_, .nothing _, ?_⟩
        · intro answer
          simp [StyleRun.lang, found]
        · intro answer
          rw [if_neg notEmpty]
          rfl
    | some header =>
        refine ⟨some (header.render session.world).1, (header.render session.world).2, ?_, ?_, ?_⟩
        · intro answer
          simp [StyleRun.lang, found, empty]
        · exact Consultation.Runs.alone ⟨header, found, rfl⟩
        · intro answer
          rw [if_neg notEmpty]
          rfl

/-- A style is compiled once, behind its header. -/
theorem exists_styleRun (block : Block) (session : Session σ) :
    ∃ (run : StyleRun) (later : σ), run.block = block ∧ run.HasHeader plugin ∧
      Consults plugin file source run.consultations session.world later ∧
      plugin.compileStyle file (scopeId file source plugin.mode.isProduction) block session =
        (if run.answer.errors = [] then .ok run.answer
          else .error (.styleCompile file plugin.collaborators.styleCompiler run.answer.errors),
          { session with world := later }) := by
  obtain ⟨header, middle, hasHeader, consults, given⟩ := exists_header plugin file source block session
  let scope := scopeId file source plugin.mode.isProduction
  let input := (StyleRun.mk block header {}).input
  let answer := (plugin.collaborators.compileStyle file scope input middle).1
  let later := (plugin.collaborators.compileStyle file scope input middle).2
  refine ⟨⟨block, header, answer⟩, later, rfl, hasHeader answer, ?_, ?_⟩
  · exact consults.append (Consultation.Runs.alone rfl)
  · have asked : consult (plugin.collaborators.compileStyle file scope input)
        { session with world := middle } = (.ok answer, { session with world := later }) :=
      consult_of_answer rfl
    unfold compileStyle
    rw [bind_of_ok (given {}), bind_of_ok asked]
    dsimp only
    by_cases clean : answer.errors = []
    · rw [if_pos clean, if_pos (List.isEmpty_iff.2 clean)]
      rfl
    · rw [if_neg clean, if_neg (fun isEmpty => clean (List.isEmpty_iff.1 isEmpty))]
      rfl

/-- The styles are compiled in order, up to the first one with errors. -/
theorem exists_styleRuns (blocks : List Block) (session : Session σ) :
    ∃ compiled failed later, CompilesInOrder plugin blocks compiled failed ∧
      Consults plugin file source
        ((compiled ++ failed.toList).flatMap StyleRun.consultations) session.world later ∧
      plugin.compileStyles file (scopeId file source plugin.mode.isProduction) blocks session =
        (match failed with
          | none => .ok (compiled.map StyleRun.answer)
          | some run =>
              .error (.styleCompile file plugin.collaborators.styleCompiler run.answer.errors),
          { session with world := later }) := by
  induction blocks generalizing session with
  | nil =>
      refine ⟨[], none, session.world, ?_, .nothing _, rfl⟩
      constructor
      · exact List.nil_prefix
      · exact fun _ => rfl
      · exact List.forall_mem_nil _
      · exact List.forall_mem_nil _
      · intro last isLast
        contradiction
  | cons block rest inductionHypothesis =>
      obtain ⟨run, middle, rfl, hasHeader, consults, outcome⟩ :=
        exists_styleRun plugin file source block session
      unfold compileStyles
      by_cases clean : run.answer.errors = []
      · rw [if_pos clean] at outcome
        obtain ⟨compiled, failed, later, ordered, further, compiledRest⟩ :=
          inductionHypothesis { session with world := middle }
        refine ⟨run :: compiled, failed, later, ?_, ?_, ?_⟩
        · constructor
          · exact List.cons_prefix_cons.2 ⟨rfl, ordered.inOrder⟩
          · intro complete
            rw [List.map_cons, ordered.complete complete]
          · exact List.forall_mem_cons.2 ⟨hasHeader, ordered.headers⟩
          · exact List.forall_mem_cons.2 ⟨clean, ordered.succeeded⟩
          · exact ordered.stopped
        · exact consults.append further
        · rw [bind_of_ok outcome]
          cases failed with
          | none => exact bind_of_ok compiledRest
          | some last => exact bind_of_error compiledRest
      · rw [if_neg clean] at outcome
        refine ⟨[], some run, middle, ?_, ?_, bind_of_error outcome⟩
        · constructor
          · exact List.cons_prefix_cons.2 ⟨rfl, List.nil_prefix⟩
          · intro complete
            contradiction
          · exact List.forall_mem_singleton.2 hasHeader
          · exact List.forall_mem_nil _
          · intro last isLast
            cases isLast
            exact clean
        · rw [List.nil_append, Option.toList_some, List.flatMap_singleton]
          exact consults

/-- What is known of styles that were all compiled. -/
theorem areCompiled_of_compileStyles {blocks : List Block} {session last : Session σ}
    {styles : List CompiledStyle}
    (succeeded : plugin.compileStyles file (scopeId file source plugin.mode.isProduction) blocks
      session = (.ok styles, last)) :
    ∃ runs, AreCompiled plugin file source session.world blocks styles runs := by
  obtain ⟨compiled, failed, later, ordered, consults, outcome⟩ :=
    exists_styleRuns plugin file source blocks session
  rw [succeeded] at outcome
  cases failed with
  | some run =>
      have isError := (Prod.mk.inj outcome).1
      contradiction
  | none =>
      have answers := Except.ok.inj (Prod.mk.inj outcome).1
      rw [Option.toList_none, List.append_nil] at consults
      exact ⟨compiled, ordered, ⟨later, consults⟩, answers,
        compilesTo_of_compileStyles succeeded⟩

/-- A template is compiled once, and keeps its tips. -/
theorem exists_templateRun (template : Option Block) (session : Session σ) :
    ∃ (entry : Option (Block × CompiledTemplate)) (later : σ), entry.map Prod.fst = template ∧
      Consults plugin file source
        (entry.map (fun (block, answer) => Consultation.template block answer)).toList
        session.world later ∧
      ((∃ block answer, entry = some (block, answer) ∧ answer.errors ≠ [] ∧
          plugin.compileTemplate? file template session =
            (.error (.templateCompile file plugin.collaborators.templateCompiler answer.errors),
              { session with world := later })) ∨
        ((∀ block answer, entry = some (block, answer) → answer.errors = []) ∧
          ∃ compiled, plugin.compileTemplate? file template session =
              (.ok compiled, { session with world := later }) ∧
            compiled.map CompiledTemplate.tips = entry.map (fun entry => entry.2.tips))) := by
  cases template with
  | none =>
      refine ⟨none, session.world, rfl, .nothing _, .inr ⟨?_, none, rfl, rfl⟩⟩
      intro block answer isEntry
      contradiction
  | some block =>
      let given := plugin.collaborators.compileTemplate plugin.templateOptions file block
        session.world
      have asked : consult (plugin.collaborators.compileTemplate plugin.templateOptions file block)
          session = (.ok given.1, { session with world := given.2 }) := consult_of_answer rfl
      refine ⟨some (block, given.1), given.2, rfl, Consultation.Runs.alone rfl, ?_⟩
      unfold compileTemplate?
      by_cases clean : given.1.errors = []
      · right
        constructor
        · intro other answer isEntry
          cases isEntry
          exact clean
        · have compiled : plugin.compileTemplate file block session =
              (.ok { given.1 with code := Assets.requireToImport given.1.code },
                { session with world := given.2 }) := by
            unfold compileTemplate
            rw [bind_of_ok asked, if_pos (List.isEmpty_iff.2 clean)]
            rfl
          exact ⟨some _, bind_of_ok compiled, rfl⟩
      · left
        refine ⟨block, given.1, rfl, clean, bind_of_error ?_⟩
        unfold compileTemplate
        rw [bind_of_ok asked, if_neg (fun isEmpty => clean (List.isEmpty_iff.1 isEmpty))]
        rfl

/-- The module is put together by the hook and the assembler, and has the tips of the
template as its warnings. -/
theorem exists_assembly (descriptor : Descriptor) (styles : List CompiledStyle)
    (template : Option CompiledTemplate) (session : Session σ) :
    ∃ consultations later output, (∀ one ∈ consultations, one.Assembles) ∧
      Consults plugin file source consultations session.world later ∧
      plugin.finish file source descriptor styles template session =
        (.ok output, { session with world := later }) ∧
      output.warnings = (template.map CompiledTemplate.tips).getD [] := by
  unfold finish runBeforeAssembly
  let input := plugin.assemblyInput file (scopeId file source plugin.mode.isProduction) descriptor
    styles template
  cases hooked : plugin.beforeAssembly with
  | none =>
      let answer := plugin.collaborators.assemble file input plugin.assemblyOptions session.world
      refine ⟨[.assembly input answer.1], answer.2, _, ?_, Consultation.Runs.alone rfl, rfl, rfl⟩
      exact List.forall_mem_singleton.2 trivial
  | some action =>
      let changed := action input session.world
      let answer := plugin.collaborators.assemble file changed.1 plugin.assemblyOptions changed.2
      refine ⟨[.hook input changed.1, .assembly changed.1 answer.1], answer.2, _, ?_, ?_, rfl, rfl⟩
      · exact List.forall_mem_cons.2 ⟨trivial, List.forall_mem_singleton.2 trivial⟩
      · exact .next ⟨action, hooked, rfl⟩ (Consultation.Runs.alone rfl)

end Steps

/-! ## The account of a transform -/

/-- What a transform did: how the component was read, the styles that were compiled without
errors and the one with errors, the template that was compiled, and whom it consulted to put
the module together. -/
structure Account where
  read : Except ParseError Descriptor
  compiled : List StyleRun := []
  failed : Option StyleRun := none
  template : Option (Block × CompiledTemplate) := none
  assembly : List Consultation := []

namespace Account

def consultations (account : Account) : List Consultation :=
  .read account.read ::
    ((account.compiled ++ account.failed.toList).flatMap StyleRun.consultations ++
      ((account.template.map (fun (block, answer) => .template block answer)).toList ++
        account.assembly))

/-- The styles of the component that was read. -/
def styles (account : Account) : List Block :=
  match account.read with
  | .ok descriptor => descriptor.styles
  | .error _ => []

/-- The template of the component, unless a style has failed. -/
def templateBlock? (account : Account) : Option Block :=
  match account.read, account.failed with
  | .ok descriptor, none => descriptor.template
  | _, _ => none

/-- The component was read, and nothing that was compiled has errors. -/
structure Succeeds (account : Account) : Prop where
  read : ∃ descriptor, account.read = .ok descriptor
  styles : account.failed = none
  template : ∀ block answer, account.template = some (block, answer) → answer.errors = []

/-- An account tells what happened from one state of the collaborators to another. -/
structure IsTrue (plugin : Plugin σ) (file : Path) (source : String) (world later : σ)
    (account : Account) : Prop where
  consults : Consults plugin file source account.consultations world later
  styles : CompilesInOrder plugin account.styles account.compiled account.failed
  template : account.template.map Prod.fst = account.templateBlock?
  assembles : ∀ one ∈ account.assembly, one.Assembles
  assembly : account.assembly ≠ [] → account.Succeeds

/-- How a transform ends with an account. -/
inductive Ends (plugin : Plugin σ) (file : Path) (account : Account) :
    Except PluginError TransformOutput → Prop where
  | unread {error : ParseError} (unread : account.read = .error error) :
      Ends plugin file account (.error (.parse file error))
  | style {run : StyleRun} (failed : account.failed = some run) :
      Ends plugin file account
        (.error (.styleCompile file plugin.collaborators.styleCompiler run.answer.errors))
  | template {block : Block} {answer : CompiledTemplate}
      (compiled : account.template = some (block, answer)) (errors : answer.errors ≠ []) :
      Ends plugin file account
        (.error (.templateCompile file plugin.collaborators.templateCompiler answer.errors))
  | module {output : TransformOutput} (succeeds : account.Succeeds)
      (warnings : output.warnings = (account.template.map (fun entry => entry.2.tips)).getD []) :
      Ends plugin file account (.ok output)

end Account

section Accounts

variable {plugin : Plugin σ} {file : Path} {source filename : String} {world later : σ}
  {account : Account} {outcome : Except PluginError TransformOutput}

namespace Account

/-- Nothing is compiled of a component that cannot be read. -/
theorem IsTrue.of_unread {error : ParseError}
    (isTrue : account.IsTrue plugin file source world later)
    (unread : account.read = .error error) :
    account.failed = none ∧ account.template = none := by
  have inOrder := isTrue.styles.inOrder
  have template := isTrue.template
  unfold Account.styles at inOrder
  unfold templateBlock? at template
  rw [unread] at inOrder template
  have nothing := List.map_eq_nil_iff.1 (List.prefix_nil.1 inOrder)
  exact ⟨Option.toList_eq_nil_iff.1 (List.append_eq_nil_iff.1 nothing).2,
    Option.map_eq_none_iff.1 template⟩

/-- The template is not compiled behind a style with errors. -/
theorem IsTrue.of_failed {run : StyleRun}
    (isTrue : account.IsTrue plugin file source world later)
    (failed : account.failed = some run) : account.template = none := by
  have template := isTrue.template
  unfold templateBlock? at template
  rw [failed] at template
  cases read : account.read with
  | error error =>
      rw [read] at template
      exact Option.map_eq_none_iff.1 template
  | ok descriptor =>
      rw [read] at template
      exact Option.map_eq_none_iff.1 template

theorem Ends.parse_iff (isTrue : account.IsTrue plugin file source world later)
    (ends : account.Ends plugin file outcome) (error : ParseError) :
    outcome = .error (.parse file error) ↔ account.read = .error error := by
  cases ends with
  | unread unread =>
      rw [unread]
      simp
  | style failed =>
      refine ⟨fun same => by simp at same, fun unread => ?_⟩
      rw [(isTrue.of_unread unread).1] at failed
      contradiction
  | template compiled =>
      refine ⟨fun same => by simp at same, fun unread => ?_⟩
      rw [(isTrue.of_unread unread).2] at compiled
      contradiction
  | module succeeds =>
      obtain ⟨descriptor, read⟩ := succeeds.read
      rw [read]
      simp

theorem Ends.style_iff (isTrue : account.IsTrue plugin file source world later)
    (ends : account.Ends plugin file outcome) (errors : List String) :
    outcome = .error (.styleCompile file plugin.collaborators.styleCompiler errors) ↔
      ∃ run, account.failed = some run ∧ run.answer.errors = errors := by
  cases ends with
  | unread unread => simp [(isTrue.of_unread unread).1]
  | style failed => simp [failed]
  | template compiled =>
      refine ⟨fun same => by simp at same, fun ⟨run, failed, _⟩ => ?_⟩
      rw [isTrue.of_failed failed] at compiled
      contradiction
  | module succeeds => simp [succeeds.styles]

theorem Ends.template_iff (isTrue : account.IsTrue plugin file source world later)
    (ends : account.Ends plugin file outcome) (errors : List String) :
    outcome = .error (.templateCompile file plugin.collaborators.templateCompiler errors) ↔
      ∃ block answer, account.template = some (block, answer) ∧ answer.errors = errors ∧
        errors ≠ [] := by
  cases ends with
  | unread unread => simp [(isTrue.of_unread unread).2]
  | style failed => simp [isTrue.of_failed failed]
  | @template block answer compiled errorsThere =>
      constructor
      · intro same
        simp only [Except.error.injEq, PluginError.templateCompile.injEq, true_and] at same
        exact ⟨block, answer, compiled, same, same ▸ errorsThere⟩
      · intro ⟨otherBlock, other, isCompiled, same, _⟩
        rw [compiled] at isCompiled
        cases isCompiled
        rw [same]
  | module succeeds =>
      refine ⟨fun same => by simp at same, fun ⟨block, answer, compiled, same, errorsThere⟩ => ?_⟩
      rw [succeeds.template block answer compiled] at same
      exact absurd same.symm errorsThere

theorem Ends.ok_iff (ends : account.Ends plugin file outcome) :
    (∃ output, outcome = .ok output) ↔ account.Succeeds := by
  cases ends with
  | unread unread =>
      refine ⟨fun ⟨_, same⟩ => by simp at same, fun succeeds => ?_⟩
      obtain ⟨descriptor, read⟩ := succeeds.read
      rw [unread] at read
      contradiction
  | style failed =>
      refine ⟨fun ⟨_, same⟩ => by simp at same, fun succeeds => ?_⟩
      rw [succeeds.styles] at failed
      contradiction
  | template compiled errors =>
      refine ⟨fun ⟨_, same⟩ => by simp at same, fun succeeds => ?_⟩
      exact absurd (succeeds.template _ _ compiled) errors
  | @module output succeeds => exact ⟨fun _ => succeeds, fun _ => ⟨output, rfl⟩⟩

end Account

theorem alone_eq {α : Type} {action : PluginM σ α} {result : Except PluginError α}
    (ran : action ⟨.empty, world⟩ = (result, ⟨.empty, later⟩)) :
    alone action world = (result, later) := by
  unfold alone
  rw [ran]

variable (plugin file source)

/-- Every transform of a file has an account, and ends as it tells. -/
theorem exists_account (session : Session σ) :
    ∃ (account : Account) (later : σ), account.IsTrue plugin file source session.world later ∧
      account.Ends plugin file (plugin.transformFile file source session).1 ∧
      (plugin.transformFile file source session).2.world = later := by
  rcases parsed : plugin.collaborators.parse plugin.parseOptions file source session.world with
    ⟨error | descriptor, world⟩
  · rw [transformFile_of_unread parsed]
    refine ⟨{ read := .error error }, world, ?_, .unread rfl, rfl⟩
    · constructor
      · exact Consultation.Runs.alone parsed
      · constructor <;> simp [Account.styles]
      · rfl
      · exact List.forall_mem_nil _
      · exact fun there => absurd rfl there
  obtain ⟨compiled, failed, middle, ordered, consulted, ranStyles⟩ :=
    exists_styleRuns plugin file source descriptor.styles ⟨.empty, world⟩
  cases failed with
  | some run =>
      have uncompiled : alone (plugin.compile file source descriptor) world =
          (.error (.styleCompile file plugin.collaborators.styleCompiler run.answer.errors),
            middle) := by
        apply alone_eq
        exact bind_of_error ranStyles
      rw [transformFile_of_uncompiled parsed uncompiled]
      refine ⟨{ read := .ok descriptor, compiled, failed := some run }, middle, ?_, .style rfl, rfl⟩
      constructor
      · refine .next parsed (consulted.append (.nothing middle))
      · exact ordered
      · rfl
      · exact List.forall_mem_nil _
      · exact fun there => absurd rfl there
  | none =>
      obtain ⟨entry, later, isTemplate, asked, ended⟩ :=
        exists_templateRun plugin file source descriptor.template ⟨.empty, middle⟩
      have consultedAll {assembly : List Consultation} {last : σ}
          (further : Consults plugin file source assembly later last) :
          Consults plugin file source (Account.mk (.ok descriptor) compiled none entry
            assembly).consultations session.world last :=
        .next parsed (consulted.append (asked.append further))
      rcases ended with ⟨block, answer, isEntry, errors, ranTemplate⟩ |
        ⟨clean, template, ranTemplate, tips⟩
      · have uncompiled : alone (plugin.compile file source descriptor) world =
            (.error (.templateCompile file plugin.collaborators.templateCompiler answer.errors),
              later) := by
          apply alone_eq
          unfold compile
          rw [bind_of_ok ranStyles]
          exact bind_of_error ranTemplate
        rw [transformFile_of_uncompiled parsed uncompiled]
        refine ⟨⟨.ok descriptor, compiled, none, entry, []⟩, later, ?_, .template isEntry errors, rfl⟩
        constructor
        · exact consultedAll (.nothing later)
        · exact ordered
        · exact isTemplate
        · exact List.forall_mem_nil _
        · exact fun there => absurd rfl there
      · have compiledAll : alone (plugin.compile file source descriptor) world =
            (.ok (compiled.map StyleRun.answer, template), later) := by
          apply alone_eq
          unfold compile
          rw [bind_of_ok ranStyles]
          exact bind_of_ok ranTemplate
        rw [transformFile_of_compiled parsed compiledAll]
        obtain ⟨assembly, last, output, assembles, further, ran, warnings⟩ :=
          exists_assembly plugin file source descriptor (compiled.map StyleRun.answer) template
            ⟨session.store.insert file (plugin.recorded descriptor
              ((compiled.map StyleRun.answer).map CompiledStyle.code)), later⟩
        have succeeds : (Account.mk (.ok descriptor) compiled none entry assembly).Succeeds :=
          ⟨⟨descriptor, rfl⟩, rfl, clean⟩
        rw [ran]
        refine ⟨⟨.ok descriptor, compiled, none, entry, assembly⟩, last, ?_, ?_, rfl⟩
        · constructor
          · exact consultedAll further
          · exact ordered
          · exact isTemplate
          · exact assembles
          · exact fun _ => succeeds
        · refine .module succeeds ?_
          rw [warnings, tips]

/-- A transform gives nothing exactly when the file is not handled, and then consults nobody.
Otherwise it consults the collaborators as its account tells: its error is that of the reader,
of the first style with errors or of the template, its warnings are the tips of the template. -/
theorem transform_policy (plugin : Plugin σ) (source filename : String) (session : Session σ) :
    let file : Path := ⟨filename⟩
    let outcome := (plugin.transform source filename session).1
    let after := (plugin.transform source filename session).2
    (outcome = .ok none ↔ plugin.filter.accepts filename = false) ∧
    (plugin.filter.accepts filename = false → after = session) ∧
    (plugin.filter.accepts filename = true →
      ∃ account : Account, account.IsTrue plugin file source session.world after.world ∧
        (∀ error, outcome = .error (.parse file error) ↔ account.read = .error error) ∧
        (∀ errors,
          outcome = .error (.styleCompile file plugin.collaborators.styleCompiler errors) ↔
            ∃ run, account.failed = some run ∧ run.answer.errors = errors) ∧
        (∀ errors,
          outcome = .error (.templateCompile file plugin.collaborators.templateCompiler errors) ↔
            ∃ block answer, account.template = some (block, answer) ∧ answer.errors = errors ∧
              errors ≠ []) ∧
        ((∃ output, outcome = .ok (some output)) ↔ account.Succeeds) ∧
        ∀ output, outcome = .ok (some output) →
          output.warnings = (account.template.map (fun entry => entry.2.tips)).getD []) := by
  intro file outcome after
  cases accepted : plugin.filter.accepts filename with
  | false =>
      have rejected := @transform_of_rejected σ plugin source filename session accepted
      have isOutcome : outcome = .ok none := congrArg Prod.fst rejected
      have isAfter : after = session := congrArg Prod.snd rejected
      exact ⟨⟨fun _ => rfl, fun _ => isOutcome⟩, fun _ => isAfter,
        fun isAccepted => absurd isAccepted (by decide)⟩
  | true =>
      have handled := @transform_of_accepted σ plugin source filename session accepted
      obtain ⟨account, later, isTrue, ends, isLater⟩ := exists_account plugin file source session
      generalize plugin.transformFile file source session = result at handled ends isLater
      obtain ⟨inner, last⟩ := result
      have isOutcome : outcome = inner.map some := congrArg Prod.fst handled
      have isAfter : after = last := congrArg Prod.snd handled
      have error_iff (error : PluginError) : outcome = .error error ↔ inner = .error error := by
        rw [isOutcome]
        cases inner <;> simp [Except.map]
      have ok_iff (output : TransformOutput) :
          outcome = .ok (some output) ↔ inner = .ok output := by
        rw [isOutcome]
        cases inner <;> simp [Except.map]
      refine ⟨⟨fun nothing => ?_, fun isRejected => absurd isRejected (by decide)⟩,
        fun isRejected => absurd isRejected (by decide), fun _ => ⟨account, ?_, ?_, ?_, ?_, ?_, ?_⟩⟩
      · rw [isOutcome] at nothing
        cases inner <;> simp [Except.map] at nothing
      · rw [isAfter, isLater]
        exact isTrue
      · exact fun error => (error_iff _).trans (ends.parse_iff isTrue error)
      · exact fun errors => (error_iff _).trans (ends.style_iff isTrue errors)
      · exact fun errors => (error_iff _).trans (ends.template_iff isTrue errors)
      · exact (exists_congr ok_iff).trans ends.ok_iff
      · intro output isOutput
        rw [ok_iff] at isOutput
        subst isOutput
        cases ends with
        | module _ warnings => exact warnings

end Accounts

end VirtualBlocks.Plugin
