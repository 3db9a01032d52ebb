import VirtualBlocks.Plugin.Requests
import VirtualBlocks.Plugin.Transform

/-!
Contract: what the steps of a call may do to the session.

Owns:
- the session behind two steps in a row, when the first one fails and when it
  does not;
- the steps that leave the store as it is;
- the steps in which the store plays no part at all, so that their result is
  decided by the state of the collaborators;
- which steps of the plugin are of either kind.

Does not own: the steps that publish a descriptor.
-/

namespace VirtualBlocks.Plugin

variable {σ α β : Type}

/-! ## Two steps in a row -/

theorem bind_of_ok {action : PluginM σ α} {next : α → PluginM σ β}
    {session later : Session σ} {value : α} (succeeded : action session = (.ok value, later)) :
    (action >>= next) session = next value later := by
  show ExceptT.bindCont next (action session).1 (action session).2 = next value later
  rw [succeeded]
  rfl

theorem bind_of_error {action : PluginM σ α} {next : α → PluginM σ β}
    {session later : Session σ} {error : PluginError}
    (failed : action session = (.error error, later)) :
    (action >>= next) session = (.error error, later) := by
  show ExceptT.bindCont next (action session).1 (action session).2 = _
  rw [failed]
  rfl

theorem exists_of_bind_eq_ok {action : PluginM σ α} {next : α → PluginM σ β}
    {session later : Session σ} {result : β}
    (succeeded : (action >>= next) session = (.ok result, later)) :
    ∃ value middle, action session = (.ok value, middle) ∧
      next value middle = (.ok result, later) := by
  rcases outcome : action session with ⟨error | value, middle⟩
  · rw [bind_of_error outcome] at succeeded
    cases succeeded
  · rw [bind_of_ok outcome] at succeeded
    exact ⟨value, middle, rfl, succeeded⟩

theorem consult_of_answer {action : StateM σ α} {session : Session σ} {value : α} {world : σ}
    (answer : action session.world = (value, world)) :
    consult action session = (.ok value, { session with world }) := by
  show ((.ok (action session.world).1 : Except PluginError α),
    { session with world := (action session.world).2 }) = _
  rw [answer]

/-! ## Steps that leave the store as it is -/

def KeepsStore (action : PluginM σ α) : Prop :=
  ∀ session, (action session).2.store = session.store

theorem KeepsStore.pure (value : α) : KeepsStore (Pure.pure value : PluginM σ α) :=
  fun _ => rfl

theorem KeepsStore.check (outcome : Except PluginError α) :
    KeepsStore (Plugin.check outcome : PluginM σ α) :=
  fun _ => rfl

theorem KeepsStore.currentStore : KeepsStore (Plugin.currentStore : PluginM σ Store) :=
  fun _ => rfl

theorem KeepsStore.bind {action : PluginM σ α} {next : α → PluginM σ β}
    (first : KeepsStore action) (second : ∀ value, KeepsStore (next value)) :
    KeepsStore (action >>= next) := by
  intro session
  have keptByFirst := first session
  rcases outcome : action session with ⟨error | value, later⟩
  · rw [outcome] at keptByFirst
    rw [bind_of_error outcome]
    exact keptByFirst
  · rw [outcome] at keptByFirst
    rw [bind_of_ok outcome]
    exact (second value later).trans keptByFirst

/-! ## Steps in which the store plays no part -/

/-- With another store a step gives the same result, and leaves that store as it
is. -/
def IgnoresStore (action : PluginM σ α) : Prop :=
  ∀ session store,
    action { session with store } = ((action session).1, { (action session).2 with store })

/-- A step run on nothing but the state of the collaborators. -/
def alone (action : PluginM σ α) (world : σ) : Except PluginError α × σ :=
  let (outcome, session) := action { store := .empty, world }
  (outcome, session.world)

theorem IgnoresStore.apply {action : PluginM σ α} (ignores : IgnoresStore action)
    (session : Session σ) :
    action session =
      ((alone action session.world).1, ⟨session.store, (alone action session.world).2⟩) :=
  ignores { store := .empty, world := session.world } session.store

theorem IgnoresStore.keepsStore {action : PluginM σ α} (ignores : IgnoresStore action) :
    KeepsStore action := by
  intro session
  rw [ignores.apply session]

theorem IgnoresStore.pure (value : α) : IgnoresStore (Pure.pure value : PluginM σ α) :=
  fun _ _ => rfl

theorem IgnoresStore.throw (error : PluginError) :
    IgnoresStore (MonadExcept.throw error : PluginM σ α) :=
  fun _ _ => rfl

theorem IgnoresStore.consult (action : StateM σ α) : IgnoresStore (Plugin.consult action) :=
  fun _ _ => rfl

theorem IgnoresStore.bind {action : PluginM σ α} {next : α → PluginM σ β}
    (first : IgnoresStore action) (second : ∀ value, IgnoresStore (next value)) :
    IgnoresStore (action >>= next) := by
  intro session store
  have firstElsewhere := first session store
  rcases outcome : action session with ⟨error | value, later⟩
  · rw [outcome] at firstElsewhere
    rw [bind_of_error outcome, bind_of_error firstElsewhere]
  · rw [outcome] at firstElsewhere
    rw [bind_of_ok outcome, bind_of_ok firstElsewhere]
    exact second value later store

/-! ## The steps of compiling -/

theorem ignoresStore_withHeader (plugin : Plugin σ) (lang text : String) :
    IgnoresStore (plugin.withHeader lang text) := by
  unfold withHeader
  split
  · exact .pure text
  · exact .bind (.consult _) (fun _ => .pure _)

theorem ignoresStore_styleInput (plugin : Plugin σ) (style : Block) :
    IgnoresStore (plugin.styleInput style) := by
  unfold styleInput
  split
  · exact .pure style
  · exact .bind (ignoresStore_withHeader plugin _ _) (fun _ => .pure _)

theorem ignoresStore_compileStyle (plugin : Plugin σ) (file : Path) (scope : String)
    (style : Block) : IgnoresStore (plugin.compileStyle file scope style) := by
  refine .bind (ignoresStore_styleInput plugin style) (fun input => ?_)
  refine .bind (.consult _) (fun compiled => ?_)
  split
  · exact .pure compiled
  · exact .throw _

theorem ignoresStore_compileStyles (plugin : Plugin σ) (file : Path) (scope : String)
    (styles : List Block) : IgnoresStore (plugin.compileStyles file scope styles) := by
  induction styles with
  | nil => exact .pure []
  | cons style rest inductionHypothesis =>
      refine .bind (ignoresStore_compileStyle plugin file scope style) (fun compiled => ?_)
      exact .bind inductionHypothesis (fun others => .pure (compiled :: others))

theorem ignoresStore_compileTemplate (plugin : Plugin σ) (file : Path) (template : Block) :
    IgnoresStore (plugin.compileTemplate file template) := by
  refine .bind (.consult _) (fun compiled => ?_)
  split
  · exact .pure _
  · exact .throw _

theorem ignoresStore_compileTemplate? (plugin : Plugin σ) (file : Path)
    (template : Option Block) : IgnoresStore (plugin.compileTemplate? file template) := by
  cases template with
  | none => exact .pure none
  | some template =>
      exact .bind (ignoresStore_compileTemplate plugin file template) (fun _ => .pure _)

theorem ignoresStore_runBeforeAssembly (plugin : Plugin σ) (input : AssemblyInput) :
    IgnoresStore (plugin.runBeforeAssembly input) := by
  unfold runBeforeAssembly
  split
  · exact .pure input
  · exact .consult _

/-! ## Resolving and loading -/

theorem keepsStore_resolveBlock (plugin : Plugin σ) (view : FileView) (id : String)
    (importer : Option String) : KeepsStore (plugin.resolveBlock view id importer) := by
  unfold resolveBlock
  dsimp only
  split
  · exact .pure none
  · refine .bind .currentStore (fun store => .bind (.check _) (fun block => ?_))
    split
    · exact .pure _
    · exact .bind (.check _) (fun _ => .pure _)

theorem keepsStore_resolveId (plugin : Plugin σ) (view : FileView) (id : String)
    (importer : Option String) : KeepsStore (plugin.resolveId view id importer) := by
  unfold resolveId
  split
  · exact .bind (.check _) (fun _ => .pure _)
  · split
    · exact keepsStore_resolveBlock plugin view id importer
    · exact .pure none

theorem keepsStore_servedCode (plugin : Plugin σ) (address : Address) (block : Block) :
    KeepsStore (plugin.servedCode address block) := by
  unfold servedCode
  split
  · exact .pure _
  · split
    · exact (ignoresStore_withHeader plugin address.lang block.content).keepsStore
    · exact .pure block.content

theorem keepsStore_load (plugin : Plugin σ) (id : String) : KeepsStore (plugin.load id) := by
  unfold load
  split
  · exact .pure none
  · refine .bind .currentStore (fun store => .bind (.check _) (fun block => ?_))
    exact .bind (keepsStore_servedCode plugin _ block) (fun _ => .pure _)

end VirtualBlocks.Plugin
