import VirtualBlocks.Proofs.Path.Canonical
import VirtualBlocks.Proofs.Plugin.Answers

/-!
Contract: resolving an id that is resolved already.

Owns:
- what an answer that is neither a helper nor a source elsewhere was found for: the request of
  the absolute id, and its block;
- that an absolute id in normal form stays as it is, whoever imports it;
- that such an answer is its own answer, loads, and leads to the same block.

Does not own: which ids have a block (`Proofs.Plugin.Answers`).
-/

namespace VirtualBlocks.Plugin

variable {σ : Type} {plugin : Plugin σ}

/-! ## Absolute ids -/

section Rooted

variable (rooted : plugin.workingDirectory.isAbsolute = true)
include rooted

theorem isAbsolute_importerDirectory (importer : Option String) :
    (plugin.importerDirectory importer).isAbsolute = true := by
  have fromThere (path : Path) : (plugin.absolute path).isAbsolute = true := by
    unfold Plugin.absolute
    cases absolute : path.isAbsolute with
    | true => rwa [if_pos rfl]
    | false => rw [if_neg Bool.false_ne_true, (Path.steps_join _ absolute).1, rooted]
  exact fromThere _

theorem isAbsolute_absoluteId (id : String) (importer : Option String) :
    (plugin.absoluteId id importer).isAbsolute = true := by
  unfold absoluteId
  rw [Path.isAbsolute_normalize]
  cases absolute : (⟨id⟩ : Path).isAbsolute with
  | true => rw [Path.join_of_isAbsolute _ absolute, absolute]
  | false => rw [(Path.steps_join _ absolute).1, isAbsolute_importerDirectory rooted importer]

/-- An absolute id stays as it is, whoever imports it. -/
theorem absoluteId_absoluteId (id : String) (importer again : Option String) :
    plugin.absoluteId (plugin.absoluteId id importer).text again =
      plugin.absoluteId id importer := by
  have absolute := isAbsolute_absoluteId rooted id importer
  have seen : (plugin.importerDirectory again).join ⟨(plugin.absoluteId id importer).text⟩ =
      plugin.absoluteId id importer := Path.join_of_isAbsolute _ absolute
  unfold absoluteId at seen ⊢
  rw [seen, Path.normalize_normalize]

end Rooted

theorem isHelper_of_isAbsolute {path : Path} (absolute : path.isAbsolute = true) :
    isHelper path.text = false := by
  obtain ⟨rest, text⟩ := List.head?_eq_some_iff.1 (eq_of_beq absolute)
  unfold isHelper
  rw [text]
  rfl

theorem isBlockRequest_of_request? {id : String} {request : BlockRequest}
    (requested : VirtualId.request? plugin.languages id = some request) :
    VirtualId.isBlockRequest plugin.languages id = true := by
  unfold VirtualId.isBlockRequest
  cases found : VirtualId.address? plugin.languages id with
  | some address => rfl
  | none =>
      rw [request?_of_address?_eq_none found] at requested
      cases requested

/-! ## What an answer was found for -/

theorem destination_of_redirect?_eq_none {request : BlockRequest} {block : Block}
    (stays : redirect? request block = none) (view : FileView) (resolved : String) :
    destination view request.file request.address.kind block resolved = .ok (some resolved) := by
  unfold redirect? at stays
  unfold destination
  cases declared : block.src with
  | none => rfl
  | some source =>
      rw [declared] at stays
      by_cases isStyle : request.address.kind = .styles
      · exact if_pos isStyle
      · rw [if_neg isStyle] at stays
        cases stays

section Answered

variable {view : FileView} {id answer : String} {importer : Option String}
variable {session later : Session σ}

theorem resolveBlock_of_request?_eq_none
    (foreign : VirtualId.request? plugin.languages (plugin.absoluteId id importer).text = none) :
    plugin.resolveBlock view id importer session = (.ok none, session) := by
  unfold resolveBlock
  rw [foreign]
  rfl

theorem resolveBlock_of_resolve_error {request : BlockRequest} {error : PluginError}
    (requested : VirtualId.request? plugin.languages (plugin.absoluteId id importer).text =
      some request)
    (failed : session.store.resolve request = .error error) :
    plugin.resolveBlock view id importer session = (.error error, session) := by
  have unfound : (check (session.store.resolve request) : PluginM σ Block) session =
      (.error error, session) := by
    rw [failed]
    rfl
  unfold resolveBlock
  rw [requested]
  dsimp only
  rw [bind_of_ok (rfl : currentStore session = (.ok session.store, session)),
    bind_of_error unfound]

/-- An answer was found for the block of the absolute id, and changed nothing. -/
theorem exists_block_of_resolveId (notHelper : isHelper id = false)
    (resolved : plugin.resolveId view id importer session = (.ok (some answer), later)) :
    later = session ∧ ∃ request block,
      VirtualId.request? plugin.languages (plugin.absoluteId id importer).text = some request ∧
      session.store.resolve request = .ok block ∧
      destination view request.file request.address.kind block
        (plugin.absoluteId id importer).text = .ok (some answer) := by
  cases addressed : VirtualId.isBlockRequest plugin.languages id with
  | false =>
      unfold resolveId at resolved
      rw [notHelper, addressed] at resolved
      cases resolved
  | true =>
      have fromBlock : plugin.resolveBlock view id importer session =
          (.ok (some answer), later) := by
        unfold resolveId at resolved
        rw [notHelper, if_neg Bool.false_ne_true, addressed, if_pos rfl] at resolved
        exact resolved
      cases requested : VirtualId.request? plugin.languages
          (plugin.absoluteId id importer).text with
      | none =>
          rw [resolveBlock_of_request?_eq_none requested] at fromBlock
          cases fromBlock
      | some request =>
          cases stored : session.store.resolve request with
          | error error =>
              rw [resolveBlock_of_resolve_error requested stored] at fromBlock
              cases fromBlock
          | ok block =>
              rw [resolveId_of_resolve view notHelper addressed requested stored] at resolved
              obtain ⟨led, same⟩ := Prod.mk.inj resolved
              exact ⟨same.symm, request, block, rfl, stored, led⟩

end Answered

/-! ## Stable answers -/

/-- The block of an id that is absolute and in normal form resolves to this id, whoever imports
it, unless its source stands elsewhere. -/
theorem resolveId_of_absoluteId {request : BlockRequest} {block : Block} {session : Session σ}
    (rooted : plugin.workingDirectory.isAbsolute = true) {id : String} {importer : Option String}
    (requested : VirtualId.request? plugin.languages (plugin.absoluteId id importer).text =
      some request)
    (stored : session.store.resolve request = .ok block)
    (stays : redirect? request block = none) (view : FileView) (again : Option String) :
    plugin.resolveId view (plugin.absoluteId id importer).text again session =
      (.ok (some (plugin.absoluteId id importer).text), session) := by
  have same := absoluteId_absoluteId rooted id importer again
  have requestedAgain : VirtualId.request? plugin.languages
      (plugin.absoluteId (plugin.absoluteId id importer).text again).text = some request := by
    rw [same, requested]
  rw [resolveId_of_resolve view (isHelper_of_isAbsolute (isAbsolute_absoluteId rooted id importer))
    (isBlockRequest_of_request? requested) requestedAgain stored, same,
    destination_of_redirect?_eq_none stays]

/-- An answer for a block that is not elsewhere answers itself: it is the absolute id, every
importer gets it back, and it loads the block that it was found for. -/
theorem resolveId_stable (rooted : plugin.workingDirectory.isAbsolute = true)
    {view : FileView} {id answer : String} {importer : Option String}
    {session later : Session σ} (notHelper : isHelper id = false)
    (resolved : plugin.resolveId view id importer session = (.ok (some answer), later)) :
    later = session ∧ ∃ request block,
      VirtualId.request? plugin.languages (plugin.absoluteId id importer).text = some request ∧
      session.store.resolve request = .ok block ∧
      (redirect? request block = none →
        (∀ view again,
          plugin.resolveId view answer again session = (.ok (some answer), session) ∧
            VirtualId.request? plugin.languages (plugin.absoluteId answer again).text =
              some request) ∧
        VirtualId.request? plugin.languages answer = some request ∧
        ∃ code served,
          plugin.servedCode request.address block session = (.ok code, served) ∧
            plugin.load answer session = (.ok (some { code, map := block.map }), served)) := by
  obtain ⟨unchanged, request, block, requested, stored, led⟩ :=
    exists_block_of_resolveId notHelper resolved
  refine ⟨unchanged, request, block, requested, stored, fun stays => ?_⟩
  rw [destination_of_redirect?_eq_none stays] at led
  obtain rfl : (plugin.absoluteId id importer).text = answer :=
    Option.some.inj (Except.ok.inj led)
  refine ⟨fun view again => ⟨?_, ?_⟩, requested, load_of_resolve_ok requested stored⟩
  · exact resolveId_of_absoluteId rooted requested stored stays view again
  · rw [absoluteId_absoluteId rooted, requested]

/-- The script of a component, asked for by a detour and with a parameter before its address. -/
theorem resolveId_stable_verbatim :
    let session := (verbatim.transform exampleSource "/src/App.vue" { world := () }).2
    let answer := "/src/App.vue?raw&vuepart=script.js"
    verbatim.resolveId (MemoryFiles.view {}) "../lib/../App.vue?raw&vuepart=script.js"
        (some "/src/views/Home.vue") session = (.ok (some answer), session) ∧
      (∀ again, verbatim.resolveId (MemoryFiles.view {}) answer again session =
        (.ok (some answer), session)) ∧
      (verbatim.load answer session).1 = .ok (some { code := "\nlet a = 1\n", map := none }) := by
  intro session answer
  let id := "../lib/../App.vue?raw&vuepart=script.js"
  let request : BlockRequest :=
    { file := ⟨"/src/App.vue"⟩, address := { kind := .script, lang := "js", index := none } }
  let block : Block := { tag := "script", content := "\nlet a = 1\n" }
  have absolute : (verbatim.absoluteId id (some "/src/views/Home.vue")).text = answer := by
    decide +kernel
  have requested : VirtualId.request? verbatim.languages answer = some request := by
    decide +kernel
  have stored : session.store.resolve request = .ok block := by
    decide +kernel
  have resolves := resolveId_of_resolve (MemoryFiles.view {}) (by decide)
    (by decide +kernel : VirtualId.isBlockRequest verbatim.languages id = true)
    (absolute ▸ requested) stored
  rw [absolute] at resolves
  obtain ⟨-, sameRequest, sameBlock, requestedFirst, storedFirst, stable⟩ :=
    resolveId_stable (by decide) (by decide) resolves
  rw [absolute] at requestedFirst
  obtain rfl := Option.some.inj (requested.symm.trans requestedFirst)
  obtain rfl := Except.ok.inj (stored.symm.trans storedFirst)
  obtain ⟨again, -, code, served, isCode, loads⟩ := stable rfl
  refine ⟨resolves, fun importer => (again _ importer).1, ?_⟩
  rw [loads, ← Except.ok.inj (Prod.mk.inj isCode).1]

end VirtualBlocks.Plugin
