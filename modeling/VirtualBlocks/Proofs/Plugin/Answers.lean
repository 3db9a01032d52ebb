import VirtualBlocks.Proofs.Plugin.Served

/-!
Contract: what resolving and loading answer behind a run of calls.

Owns:
- ids that are not ours, for which both calls answer nothing and never fail;
- the component that was read last for a file, told from the history of the run
  alone, and why it has no block at an address;
- loading a block: too early, no such block, or served, each exactly when the
  history says so;
- that a file, once read, is never reported as unread again.

Does not own: the code that is served (`Proofs.Plugin.Served`).
-/

namespace VirtualBlocks

namespace Descriptor

/-- Why a component has no block at an address: the only block of a kind is
absent, or a list has no such position. -/
def Lacks (descriptor : Descriptor) : BlockKind → Option Nat → Prop
  | .template, _ => descriptor.template = none
  | .script, _ => descriptor.script = none
  | .styles, index => ∀ position ∈ index, descriptor.styles.length ≤ position
  | .customBlocks, index => ∀ position ∈ index, descriptor.customBlocks.length ≤ position

private theorem bind_getElem?_eq_none_iff (blocks : List Block) (index : Option Nat) :
    index.bind (blocks[·]?) = none ↔ ∀ position ∈ index, blocks.length ≤ position := by
  cases index with
  | none => simp
  | some position => simp

theorem select?_eq_none_iff (descriptor : Descriptor) (kind : BlockKind)
    (index : Option Nat) :
    descriptor.select? kind index = none ↔ descriptor.Lacks kind index := by
  cases kind with
  | template => exact Iff.rfl
  | script => exact Iff.rfl
  | styles => exact bind_getElem?_eq_none_iff descriptor.styles index
  | customBlocks => exact bind_getElem?_eq_none_iff descriptor.customBlocks index

end Descriptor

namespace Plugin

variable {σ : Type}

/-! ## Ids that are not ours -/

section Foreign

variable {plugin : Plugin σ} {id : String}

theorem request?_of_address?_eq_none
    (foreign : VirtualId.address? plugin.languages id = none) :
    VirtualId.request? plugin.languages id = none := by
  unfold VirtualId.request?
  rw [foreign]
  cases Text.throughLast? VirtualId.extension id.toList with
  | none => rfl
  | some file => rfl

theorem resolveId_of_foreign (foreign : VirtualId.address? plugin.languages id = none)
    (notHelper : isHelper id = false) (view : FileView) (importer : Option String)
    (session : Session σ) :
    plugin.resolveId view id importer session = (.ok none, session) := by
  have notOurs : VirtualId.isBlockRequest plugin.languages id = false := by
    unfold VirtualId.isBlockRequest
    rw [foreign]
    rfl
  unfold resolveId
  rw [notHelper, notOurs]
  rfl

theorem load_of_foreign (foreign : VirtualId.address? plugin.languages id = none)
    (session : Session σ) : plugin.load id session = (.ok none, session) := by
  unfold load
  rw [request?_of_address?_eq_none foreign]
  rfl

end Foreign

/-! ## The answer of a load -/

theorem withHeader_succeeds (plugin : Plugin σ) (lang text : String) (session : Session σ) :
    ∃ code later, plugin.withHeader lang text session = (.ok code, later) := by
  unfold withHeader
  cases plugin.headers.get? lang with
  | none => exact ⟨text, session, rfl⟩
  | some header => exact ⟨_, _, rfl⟩

theorem servedCode_succeeds (plugin : Plugin σ) (address : Address) (block : Block)
    (session : Session σ) :
    ∃ code later, plugin.servedCode address block session = (.ok code, later) := by
  unfold servedCode
  cases block.code with
  | some code => exact ⟨code, session, rfl⟩
  | none =>
      dsimp only
      split
      · exact withHeader_succeeds plugin address.lang block.content session
      · exact ⟨block.content, session, rfl⟩

section Requested

variable {plugin : Plugin σ} {id : String} {request : BlockRequest} {session : Session σ}

theorem load_of_requested
    (requested : VirtualId.request? plugin.languages id = some request) :
    plugin.load id session =
      (do
        let block ← check (session.store.resolve request)
        let code ← plugin.servedCode request.address block
        return some { code, map := block.map } : PluginM σ (Option LoadOutput)) session := by
  unfold load
  rw [requested]
  exact bind_of_ok rfl

theorem load_of_resolve_error {error : PluginError}
    (requested : VirtualId.request? plugin.languages id = some request)
    (failed : session.store.resolve request = .error error) :
    (plugin.load id session).1 = .error error := by
  rw [load_of_requested requested, failed]
  exact congrArg Prod.fst (bind_of_error rfl)

theorem load_of_resolve_ok {block : Block}
    (requested : VirtualId.request? plugin.languages id = some request)
    (found : session.store.resolve request = .ok block) :
    ∃ code later, plugin.servedCode request.address block session = (.ok code, later) ∧
      plugin.load id session = (.ok (some { code, map := block.map }), later) := by
  obtain ⟨code, later, served⟩ := servedCode_succeeds plugin request.address block session
  refine ⟨code, later, served, ?_⟩
  rw [load_of_requested requested, found,
    bind_of_ok (rfl : (check (.ok block) : PluginM σ Block) session = (.ok block, session)),
    bind_of_ok served]
  rfl

/-! The three answers, told from the descriptor that the store has for the file of
the request. -/

theorem load_of_get?_eq_none
    (requested : VirtualId.request? plugin.languages id = some request)
    (unknown : session.store.get? request.file = none) :
    (plugin.load id session).1 = .error (.notYetProcessed request.file) := by
  apply load_of_resolve_error requested
  unfold Store.resolve
  rw [unknown]

section Current

variable {descriptor : Descriptor}

theorem load_of_lacks
    (requested : VirtualId.request? plugin.languages id = some request)
    (current : session.store.get? request.file = some descriptor)
    (lacks : descriptor.Lacks request.address.kind request.address.index) :
    (plugin.load id session).1 =
      .error (.blockNotFound request.file request.address.kind request.address.index) := by
  apply load_of_resolve_error requested
  unfold Store.resolve
  rw [current]
  dsimp only
  rw [(descriptor.select?_eq_none_iff _ _).2 lacks]

theorem load_of_not_lacks
    (requested : VirtualId.request? plugin.languages id = some request)
    (current : session.store.get? request.file = some descriptor)
    (present : ¬ descriptor.Lacks request.address.kind request.address.index) :
    ∃ output, (plugin.load id session).1 = .ok (some output) := by
  rw [← descriptor.select?_eq_none_iff] at present
  obtain ⟨block, selected⟩ := Option.ne_none_iff_exists'.1 present
  have found : session.store.resolve request = .ok block := by
    unfold Store.resolve
    rw [current]
    dsimp only
    rw [selected]
  obtain ⟨code, later, -, loads⟩ := load_of_resolve_ok requested found
  exact ⟨_, congrArg Prod.fst loads⟩

theorem load_eq_blockNotFound_iff
    (requested : VirtualId.request? plugin.languages id = some request)
    (current : session.store.get? request.file = some descriptor) :
    (plugin.load id session).1 =
        .error (.blockNotFound request.file request.address.kind request.address.index) ↔
      descriptor.Lacks request.address.kind request.address.index := by
  refine ⟨fun failed => ?_, load_of_lacks requested current⟩
  by_contra present
  obtain ⟨output, served⟩ := load_of_not_lacks requested current present
  rw [served] at failed
  cases failed

end Current

theorem load_eq_notYetProcessed_iff
    (requested : VirtualId.request? plugin.languages id = some request) :
    (plugin.load id session).1 = .error (.notYetProcessed request.file) ↔
      session.store.get? request.file = none := by
  refine ⟨fun failed => ?_, load_of_get?_eq_none requested⟩
  cases current : session.store.get? request.file with
  | none => rfl
  | some descriptor =>
      by_cases lacks : descriptor.Lacks request.address.kind request.address.index
      · rw [load_of_lacks requested current lacks] at failed
        cases failed
      · obtain ⟨output, served⟩ := load_of_not_lacks requested current lacks
        rw [served] at failed
        cases failed

end Requested

/-! ## The component read last -/

/-- The component that a call reads for this file. -/
def readFor? (plugin : Plugin σ) (file : Path) : Call × Session σ → Option Descriptor
  | (.transform source filename, session) =>
      if file.SameFile ⟨filename⟩ then
        (plugin.parsed? source filename session.world).map Prod.fst
      else none
  | (.resolveId _ _ _, _) => none
  | (.load _, _) => none

/-- The component that was read last for a file in a run. -/
def lastRead? (plugin : Plugin σ) (calls : List Call) (session : Session σ) (file : Path) :
    Option Descriptor :=
  (plugin.history calls session).reverse.findSome? (plugin.readFor? file)

theorem lastRead?_eq_none_iff (plugin : Plugin σ) (calls : List Call) (session : Session σ)
    (file : Path) :
    plugin.lastRead? calls session file = none ↔
      ∀ entry ∈ plugin.history calls session, plugin.readFor? file entry = none := by
  unfold lastRead?
  rw [List.findSome?_eq_none_iff]
  simp only [List.mem_reverse]

theorem lacks_recorded_iff (plugin : Plugin σ) (descriptor : Descriptor) (codes : List String)
    (kind : BlockKind) (index : Option Nat) :
    (plugin.recorded descriptor codes).Lacks kind index ↔ descriptor.Lacks kind index := by
  unfold recorded
  split
  · cases kind with
    | template => exact Iff.rfl
    | script => exact Iff.rfl
    | styles =>
        show (∀ position ∈ index, (descriptor.styles.mapIdx _).length ≤ position) ↔ _
        rw [List.length_mapIdx]
        exact Iff.rfl
    | customBlocks => exact Iff.rfl
  · exact Iff.rfl

/-- Two descriptors that lack the same blocks. -/
def SameBlocks (left right : Descriptor) : Prop :=
  ∀ kind index, left.Lacks kind index ↔ right.Lacks kind index

theorem published?_rel (plugin : Plugin σ) (source filename : String) (world : σ) :
    Option.Rel SameBlocks (plugin.published? source filename world)
      ((plugin.parsed? source filename world).map Prod.fst) := by
  unfold published?
  cases plugin.parsed? source filename world with
  | none => exact .none
  | some read =>
      obtain ⟨descriptor, later⟩ := read
      refine .some (fun kind index => ?_)
      dsimp only
      split
      · exact lacks_recorded_iff plugin descriptor _ kind index
      · exact Iff.rfl

theorem publishedFor?_rel (plugin : Plugin σ) (file : Path) (entry : Call × Session σ) :
    Option.Rel SameBlocks (plugin.publishedFor? file entry) (plugin.readFor? file entry) := by
  obtain ⟨call, session⟩ := entry
  cases call with
  | transform source filename =>
      show Option.Rel SameBlocks (if _ then _ else none) (if _ then _ else none)
      split
      · exact published?_rel plugin source filename session.world
      · exact .none
  | resolveId view id importer => exact .none
  | load id => exact .none

theorem findSome?_rel {ι α β : Type} {R : α → β → Prop} {left : ι → Option α}
    {right : ι → Option β} (related : ∀ entry, Option.Rel R (left entry) (right entry))
    (entries : List ι) : Option.Rel R (entries.findSome? left) (entries.findSome? right) := by
  induction entries with
  | nil => exact .none
  | cons entry rest inductionHypothesis =>
      have first := related entry
      rw [List.findSome?_cons, List.findSome?_cons]
      cases leftFirst : left entry with
      | none =>
          rw [leftFirst] at first
          cases rightFirst : right entry with
          | none => exact inductionHypothesis
          | some value =>
              rw [rightFirst] at first
              cases first
      | some value =>
          rw [leftFirst] at first
          cases rightFirst : right entry with
          | none =>
              rw [rightFirst] at first
              cases first
          | some other =>
              rw [rightFirst] at first
              exact first

/-- The descriptor of a file behind a run lacks what the component that was read
last for the file lacks. -/
theorem get?_run_rel (plugin : Plugin σ) (world : σ) (calls : List Call) (file : Path) :
    Option.Rel SameBlocks ((plugin.run calls { world }).store.get? file)
      (plugin.lastRead? calls { world } file) := by
  rw [get?_run, Store.get?_empty, Option.or_none]
  exact findSome?_rel (publishedFor?_rel plugin file) _

theorem get?_run_eq_none_iff (plugin : Plugin σ) (world : σ) (calls : List Call)
    (file : Path) :
    (plugin.run calls { world }).store.get? file = none ↔
      plugin.lastRead? calls { world } file = none := by
  have related := get?_run_rel plugin world calls file
  generalize (plugin.run calls { world }).store.get? file = stored at related
  generalize plugin.lastRead? calls { world } file = last at related
  cases related with
  | none => exact Iff.rfl
  | some same => exact iff_of_false (Option.some_ne_none _) (Option.some_ne_none _)

theorem exists_lastRead? {plugin : Plugin σ} {world : σ} {calls : List Call} {file : Path}
    {stored : Descriptor}
    (current : (plugin.run calls { world }).store.get? file = some stored) :
    ∃ descriptor, plugin.lastRead? calls { world } file = some descriptor ∧
      SameBlocks stored descriptor := by
  have related := get?_run_rel plugin world calls file
  rw [current] at related
  cases last : plugin.lastRead? calls { world } file with
  | none =>
      rw [last] at related
      cases related
  | some descriptor =>
      rw [last] at related
      cases related with
      | some same => exact ⟨descriptor, rfl, same⟩

/-! ## Answers behind a run -/

/-- A file with a descriptor keeps one. -/
theorem get?_run_ne_none (plugin : Plugin σ) (calls : List Call) {session : Session σ}
    {file : Path} (known : session.store.get? file ≠ none) :
    (plugin.run calls session).store.get? file ≠ none := by
  rw [get?_run]
  intro unknown
  exact known (Option.or_eq_none_iff.1 unknown).2

theorem get?_of_sameFile (store : Store) {left right : Path} (same : left.SameFile right) :
    store.get? left = store.get? right := by
  unfold Store.get?
  rw [same]

/-- Behind a run that starts without descriptors. An id that has no address and
names no helper is left alone. The load of a request fails as unread exactly when
no call has read its file; otherwise it fails for want of the block exactly when
the component that was read last lacks it, and else it succeeds. A file that a
load has once found read stays so, for all its ids and whatever calls follow. -/
theorem answers_run (plugin : Plugin σ) (world : σ) (calls : List Call) :
    let session := plugin.run calls { world }
    (∀ id, VirtualId.address? plugin.languages id = none → isHelper id = false →
      (∀ view importer, plugin.resolveId view id importer session = (.ok none, session)) ∧
        plugin.load id session = (.ok none, session)) ∧
    (∀ id request, VirtualId.request? plugin.languages id = some request →
      let answer := (plugin.load id session).1
      let address := request.address
      (answer = .error (.notYetProcessed request.file) ↔
        ∀ entry ∈ plugin.history calls { world }, plugin.readFor? request.file entry = none) ∧
      (answer ≠ .error (.notYetProcessed request.file) →
        ∃ descriptor, plugin.lastRead? calls { world } request.file = some descriptor ∧
          (answer = .error (.blockNotFound request.file address.kind address.index) ↔
            descriptor.Lacks address.kind address.index) ∧
          (¬ descriptor.Lacks address.kind address.index →
            ∃ output, answer = .ok (some output)))) ∧
    (∀ id request other otherRequest further,
      VirtualId.request? plugin.languages id = some request →
      VirtualId.request? plugin.languages other = some otherRequest →
      request.file.SameFile otherRequest.file →
      (plugin.load id session).1 ≠ .error (.notYetProcessed request.file) →
      (plugin.load other (plugin.run further session)).1 ≠
        .error (.notYetProcessed otherRequest.file)) := by
  intro session
  refine ⟨?_, ?_, ?_⟩
  · intro id foreign notHelper
    refine ⟨fun view importer => ?_, load_of_foreign foreign session⟩
    exact resolveId_of_foreign foreign notHelper view importer session
  · intro id request requested answer address
    have unread := get?_run_eq_none_iff plugin world calls request.file
    rw [load_eq_notYetProcessed_iff requested]
    refine ⟨unread.trans (lastRead?_eq_none_iff plugin calls _ request.file), ?_⟩
    intro known
    rw [ne_eq, load_eq_notYetProcessed_iff requested] at known
    obtain ⟨stored, current⟩ := Option.ne_none_iff_exists'.1 known
    obtain ⟨descriptor, last, same⟩ := exists_lastRead? current
    refine ⟨descriptor, last, ?_, ?_⟩
    · rw [← same]
      exact load_eq_blockNotFound_iff requested current
    · rw [← same]
      exact load_of_not_lacks requested current
  · intro id request other otherRequest further requested otherRequested same processed
    rw [ne_eq, load_eq_notYetProcessed_iff requested, get?_of_sameFile _ same] at processed
    rw [ne_eq, load_eq_notYetProcessed_iff otherRequested]
    exact get?_run_ne_none plugin further processed

/-- A style beyond the last one of a component, asked for before the component is
read and after it, a rejected file in between. -/
theorem answers_run_verbatim :
    let id := "/src/App.vue?vuepart=styles.7.css"
    (verbatim.load id { world := () }).1 = .error (.notYetProcessed ⟨"/src/App.vue"⟩) ∧
      (verbatim.load id (verbatim.run
          [.load id, .transform "" "/src/main.js", .transform exampleSource "/src//App.vue"]
          { world := () })).1 =
        .error (.blockNotFound ⟨"/src/App.vue"⟩ .styles (some 7)) := by
  intro id
  let calls : List Call :=
    [.load id, .transform "" "/src/main.js", .transform exampleSource "/src//App.vue"]
  let request : BlockRequest :=
    { file := ⟨"/src/App.vue"⟩, address := { kind := .styles, lang := "css", index := some 7 } }
  let component : Descriptor :=
    { script := some { tag := "script", content := "\nlet a = 1\n" }
      styles := [{ tag := "style", content := "\na \x7b\x7d\n" }] }
  have requested : VirtualId.request? verbatim.languages id = some request := by
    decide +kernel
  obtain ⟨-, atStart, -⟩ := answers_run verbatim () []
  obtain ⟨-, later, -⟩ := answers_run verbatim () calls
  have last : verbatim.lastRead? calls { world := () } request.file = some component := by
    decide +kernel
  have known : (verbatim.load id (verbatim.run calls { world := () })).1 ≠
      .error (.notYetProcessed request.file) := by
    rw [ne_eq, (later id request requested).1, ← lastRead?_eq_none_iff, last]
    exact Option.some_ne_none component
  refine ⟨(atStart id request requested).1.2 (fun entry member => nomatch member), ?_⟩
  obtain ⟨descriptor, lastAgain, absent, -⟩ := (later id request requested).2 known
  obtain rfl := Option.some.inj (last.symm.trans lastAgain)
  exact absent.2 (fun position member => by cases member; decide)

end Plugin

end VirtualBlocks
