import VirtualBlocks.Proofs.Plugin.Failures

/-!
Contract: the store over whole runs of a plugin.

Owns:
- a call with its arguments, the session behind calls in a row, and the history
  of a run, which pairs each call with the session it was made in;
- the descriptor that one call makes current, read off the call and the state of
  the collaborators alone;
- the store behind a run: each file has the descriptor of the last call that made
  one current.

Does not own: what resolving and loading answer.
-/

namespace VirtualBlocks.Plugin

variable {σ : Type}

/-! ## Calls and runs -/

/-- A call with its arguments. -/
inductive Call where
  | transform (source filename : String)
  | resolveId (view : FileView) (id : String) (importer : Option String)
  | load (id : String)

/-- The session behind a call, whether the call fails or not. -/
def after (plugin : Plugin σ) (session : Session σ) : Call → Session σ
  | .transform source filename => (plugin.transform source filename session).2
  | .resolveId view id importer => (plugin.resolveId view id importer session).2
  | .load id => (plugin.load id session).2

/-- The session behind calls in a row. -/
def run (plugin : Plugin σ) (calls : List Call) (session : Session σ) : Session σ :=
  calls.foldl plugin.after session

/-- The calls in order, each with the session it is made in. -/
def history (plugin : Plugin σ) : List Call → Session σ → List (Call × Session σ)
  | [], _ => []
  | call :: rest, session => (call, session) :: plugin.history rest (plugin.after session call)

/-! ## What one call makes current -/

/-- What a transform reads, with the state of the collaborators behind the reader.
Nothing when the file is not handled or cannot be read. -/
def parsed? (plugin : Plugin σ) (source filename : String) (world : σ) :
    Option (Descriptor × σ) :=
  if plugin.filter.accepts filename then
    match plugin.collaborators.parse plugin.parseOptions ⟨filename⟩ source world with
    | (.ok descriptor, later) => some (descriptor, later)
    | (.error _, _) => none
  else none

/-- The reader that splits sources itself, and changes no state. -/
def builtinReader (options : ParseOptions) (file : Path) (source : String) :
    StateM σ (Except ParseError Descriptor) :=
  pure ((Descriptor.ofSource options file source).mapError Markup.SplitError.report)

/-- The compiled styles, unless one of the compilers fails. -/
def compiledStyles? (plugin : Plugin σ) (source filename : String) (descriptor : Descriptor)
    (world : σ) : Option (List CompiledStyle) :=
  match (alone (plugin.compile ⟨filename⟩ source descriptor) world).1 with
  | .ok (styles, _) => some styles
  | .error _ => none

/-- The descriptor that a transform makes the current one of its file. -/
def published? (plugin : Plugin σ) (source filename : String) (world : σ) :
    Option Descriptor :=
  (plugin.parsed? source filename world).map (fun (descriptor, later) =>
    match plugin.compiledStyles? source filename descriptor later with
    | some styles => plugin.recorded descriptor (styles.map CompiledStyle.code)
    | none => descriptor)

/-- The descriptor that a call makes the current one of this file. -/
def publishedFor? (plugin : Plugin σ) (file : Path) : Call × Session σ → Option Descriptor
  | (.transform source filename, session) =>
      if file.SameFile ⟨filename⟩ then plugin.published? source filename session.world
      else none
  | (.resolveId _ _ _, _) => none
  | (.load _, _) => none

variable {plugin : Plugin σ} {source filename : String} {session : Session σ}
variable {descriptor : Descriptor} {world : σ}

theorem transform_of_parsed?_eq_none
    (unparsed : plugin.parsed? source filename session.world = none) :
    (∀ output, (plugin.transform source filename session).1 ≠ .ok (some output)) ∧
      (plugin.transform source filename session).2.store = session.store := by
  unfold parsed? at unparsed
  by_cases accepted : plugin.filter.accepts filename = true
  · rw [if_pos accepted] at unparsed
    rw [transform_of_accepted accepted]
    split at unparsed
    · cases unparsed
    · rename_i error world unread
      rw [transformFile_of_unread unread]
      exact ⟨fun output => nofun, rfl⟩
  · rw [transform_of_rejected (Bool.eq_false_iff.2 accepted)]
    exact ⟨fun output => nofun, rfl⟩

theorem accepted_of_parsed?
    (parsed : plugin.parsed? source filename session.world = some (descriptor, world)) :
    plugin.filter.accepts filename = true ∧
      plugin.collaborators.parse plugin.parseOptions ⟨filename⟩ source session.world =
        (.ok descriptor, world) := by
  unfold parsed? at parsed
  by_cases accepted : plugin.filter.accepts filename = true
  · rw [if_pos accepted] at parsed
    split at parsed
    · rename_i read
      cases parsed
      exact ⟨accepted, read⟩
    · cases parsed
  · rw [if_neg accepted] at parsed
    cases parsed

/-- What the built-in reader reads is the descriptor of the source. -/
theorem split_of_parsed? (reader : plugin.collaborators.parse = builtinReader)
    (parsed : plugin.parsed? source filename session.world = some (descriptor, world)) :
    Descriptor.ofSource plugin.parseOptions ⟨filename⟩ source = .ok descriptor := by
  have read := (accepted_of_parsed? parsed).2
  rw [reader] at read
  have outcome : (Descriptor.ofSource plugin.parseOptions ⟨filename⟩ source).mapError
      Markup.SplitError.report = .ok descriptor := (Prod.mk.inj read).1
  cases split : Descriptor.ofSource plugin.parseOptions ⟨filename⟩ source with
  | error error =>
      rw [split] at outcome
      cases outcome
  | ok other =>
      rw [split] at outcome
      exact congrArg _ (Except.ok.inj outcome)

theorem transform_of_compiledStyles?_eq_none
    (parsed : plugin.parsed? source filename session.world = some (descriptor, world))
    (uncompiled : plugin.compiledStyles? source filename descriptor world = none) :
    (∃ error, (plugin.transform source filename session).1 = .error error) ∧
      (plugin.transform source filename session).2.store =
        session.store.insert ⟨filename⟩ descriptor := by
  obtain ⟨accepted, read⟩ := accepted_of_parsed? parsed
  unfold compiledStyles? at uncompiled
  rcases outcome : alone (plugin.compile ⟨filename⟩ source descriptor) world with
    ⟨error | ⟨styles, template⟩, later⟩
  · rw [transform_of_accepted accepted, transformFile_of_uncompiled read outcome]
    exact ⟨⟨error, rfl⟩, rfl⟩
  · rw [outcome] at uncompiled
    cases uncompiled

theorem transform_of_compiledStyles?_eq_some {styles : List CompiledStyle}
    (parsed : plugin.parsed? source filename session.world = some (descriptor, world))
    (compiled : plugin.compiledStyles? source filename descriptor world = some styles) :
    (∃ output, (plugin.transform source filename session).1 = .ok (some output) ∧
        ∃ assembled, output.code = assembled ++ plugin.exportsOf ⟨filename⟩ descriptor) ∧
      (plugin.transform source filename session).2.store =
        session.store.insert ⟨filename⟩
          (plugin.recorded descriptor (styles.map CompiledStyle.code)) := by
  obtain ⟨accepted, read⟩ := accepted_of_parsed? parsed
  unfold compiledStyles? at compiled
  rcases outcome : alone (plugin.compile ⟨filename⟩ source descriptor) world with
    ⟨error | ⟨others, template⟩, later⟩
  · rw [outcome] at compiled
    cases compiled
  · rw [outcome] at compiled
    cases compiled
    obtain ⟨output, last, finished, code⟩ := finish_succeeds plugin ⟨filename⟩ source descriptor styles
      template ⟨session.store.insert ⟨filename⟩
        (plugin.recorded descriptor (styles.map CompiledStyle.code)), later⟩
    have kept := (ignoresStore_finish plugin ⟨filename⟩ source descriptor styles
      template).keepsStore ⟨session.store.insert ⟨filename⟩
        (plugin.recorded descriptor (styles.map CompiledStyle.code)), later⟩
    rw [transform_of_accepted accepted, transformFile_of_compiled read outcome]
    exact ⟨⟨output, by rw [finished]; rfl, code⟩, kept⟩

theorem compile_of_compiledStyles? {styles : List CompiledStyle}
    (compiled : plugin.compiledStyles? source filename descriptor world = some styles) :
    ∃ template later, plugin.compile ⟨filename⟩ source descriptor ⟨.empty, world⟩ =
      (.ok (styles, template), later) := by
  unfold compiledStyles? alone at compiled
  rcases outcome : plugin.compile ⟨filename⟩ source descriptor ⟨.empty, world⟩ with
    ⟨error | ⟨others, template⟩, later⟩
  · rw [outcome] at compiled
    cases compiled
  · rw [outcome] at compiled
    cases compiled
    exact ⟨template, later, rfl⟩

theorem areCompiled_of_compiledStyles? {styles : List CompiledStyle}
    (compiled : plugin.compiledStyles? source filename descriptor world = some styles) :
    ∃ runs, AreCompiled plugin ⟨filename⟩ source world descriptor.styles styles runs := by
  obtain ⟨template, later, succeeded⟩ := compile_of_compiledStyles? compiled
  obtain ⟨middle, compiledStyles⟩ := compileStyles_of_compile succeeded
  exact areCompiled_of_compileStyles plugin ⟨filename⟩ source compiledStyles

theorem store_transform (plugin : Plugin σ) (source filename : String) (session : Session σ) :
    (plugin.transform source filename session).2.store =
      match plugin.published? source filename session.world with
      | some descriptor => session.store.insert ⟨filename⟩ descriptor
      | none => session.store := by
  unfold published?
  rcases parsed : plugin.parsed? source filename session.world with _ | ⟨descriptor, world⟩
  · exact (transform_of_parsed?_eq_none parsed).2
  · rcases compiled : plugin.compiledStyles? source filename descriptor world with _ | styles
    · simp only [Option.map_some, compiled]
      exact (transform_of_compiledStyles?_eq_none parsed compiled).2
    · simp only [Option.map_some, compiled]
      exact (transform_of_compiledStyles?_eq_some parsed compiled).2

/-! ## The store behind a run -/

theorem publishedFor?_transform (plugin : Plugin σ) (source filename : String)
    (session : Session σ) (file : Path) :
    plugin.publishedFor? file (.transform source filename, session) =
      if file.SameFile ⟨filename⟩ then plugin.published? source filename session.world
      else none :=
  rfl

theorem get?_transform (plugin : Plugin σ) (source filename : String) (session : Session σ)
    (file : Path) :
    (plugin.transform source filename session).2.store.get? file =
      (plugin.publishedFor? file (.transform source filename, session)).or
        (session.store.get? file) := by
  rw [store_transform, publishedFor?_transform]
  rcases published : plugin.published? source filename session.world with _ | descriptor
  · rw [ite_self, Option.none_or]
  · dsimp only
    rw [Store.get?_insert]
    by_cases same : file.SameFile ⟨filename⟩
    · rw [if_pos same, if_pos same, Option.some_or]
    · rw [if_neg same, if_neg same, Option.none_or]

theorem get?_after (plugin : Plugin σ) (session : Session σ) (call : Call) (file : Path) :
    (plugin.after session call).store.get? file =
      (plugin.publishedFor? file (call, session)).or (session.store.get? file) := by
  cases call with
  | transform source filename => exact get?_transform plugin source filename session file
  | resolveId view id importer =>
      exact congrArg (Store.get? · file) (keepsStore_resolveId plugin view id importer session)
  | load id => exact congrArg (Store.get? · file) (keepsStore_load plugin id session)

theorem get?_run (plugin : Plugin σ) (calls : List Call) (session : Session σ) (file : Path) :
    (plugin.run calls session).store.get? file =
      ((plugin.history calls session).reverse.findSome? (plugin.publishedFor? file)).or
        (session.store.get? file) := by
  -- The newest call stands first in the reversed history, and the session that
  -- the run starts in is older than every call.
  induction calls generalizing session with
  | nil => rfl
  | cons call rest inductionHypothesis =>
      have behindRest := inductionHypothesis (plugin.after session call)
      rw [get?_after] at behindRest
      rw [history, List.reverse_cons, List.findSome?_append, List.findSome?_singleton,
        Option.or_assoc]
      exact behindRest

/-- Calls that transform other files leave the descriptor of a file as it is. -/
theorem get?_run_of_others (plugin : Plugin σ) {calls : List Call} {file : Path}
    (others : ∀ source filename, Call.transform source filename ∈ calls →
      ¬ file.SameFile ⟨filename⟩)
    (session : Session σ) :
    (plugin.run calls session).store.get? file = session.store.get? file := by
  induction calls generalizing session with
  | nil => rfl
  | cons call rest inductionHypothesis =>
      have untouched : plugin.publishedFor? file (call, session) = none := by
        cases call with
        | transform source filename =>
            rw [publishedFor?_transform, if_neg (others source filename List.mem_cons_self)]
        | resolveId view id importer => rfl
        | load id => rfl
      have behindRest := inductionHypothesis
        (fun source filename member => others source filename (List.mem_cons_of_mem _ member))
        (plugin.after session call)
      rw [get?_after, untouched, Option.none_or] at behindRest
      exact behindRest

/-- Behind a run that starts without descriptors, each file has the descriptor of
the last call that made one current. What one call does depends on no other one:
a transform that is not handled or not read leaves the store alone, a transform
that was read replaces the descriptor of its own file, the styles with their
compiled codes if both compilers succeed and the codes are to be extracted, and
no other call changes the store. The compiled styles are what the style compiler
answers when it is given the styles in order, each behind its header. -/
theorem store_run (plugin : Plugin σ) (world : σ) (calls : List Call) :
    (∀ file,
      (plugin.run calls { world }).store.get? file =
        (plugin.history calls { world }).reverse.findSome? (plugin.publishedFor? file)) ∧
    (∀ source filename session,
      match plugin.parsed? source filename session.world with
      | none =>
          (∀ output, (plugin.transform source filename session).1 ≠ .ok (some output)) ∧
            (plugin.transform source filename session).2.store = session.store
      | some (descriptor, later) =>
          match plugin.compiledStyles? source filename descriptor later with
          | none =>
              (∃ error, (plugin.transform source filename session).1 = .error error) ∧
                (plugin.transform source filename session).2.store =
                  session.store.insert ⟨filename⟩ descriptor
          | some styles =>
              (∃ output, (plugin.transform source filename session).1 = .ok (some output)) ∧
                (∃ runs,
                  AreCompiled plugin ⟨filename⟩ source later descriptor.styles styles runs) ∧
                (plugin.transform source filename session).2.store =
                  session.store.insert ⟨filename⟩
                    (plugin.recorded descriptor (styles.map CompiledStyle.code))) ∧
    (∀ source filename session other, ¬ Path.SameFile other ⟨filename⟩ →
      (plugin.transform source filename session).2.store.get? other =
        session.store.get? other) ∧
    (∀ view id importer session,
      (plugin.resolveId view id importer session).2.store = session.store) ∧
    (∀ id session, (plugin.load id session).2.store = session.store) := by
  refine ⟨?_, ?_, ?_, ?_, ?_⟩
  · intro file
    rw [get?_run, Store.get?_empty, Option.or_none]
  · intro source filename session
    split
    · rename_i unparsed
      exact transform_of_parsed?_eq_none unparsed
    · rename_i descriptor later parsed
      split
      · rename_i uncompiled
        exact transform_of_compiledStyles?_eq_none parsed uncompiled
      · rename_i styles compiled
        obtain ⟨⟨output, succeeded, -⟩, stored⟩ :=
          transform_of_compiledStyles?_eq_some parsed compiled
        exact ⟨⟨output, succeeded⟩, areCompiled_of_compiledStyles? compiled, stored⟩
  · intro source filename session other differs
    rw [get?_transform, publishedFor?_transform, if_neg differs, Option.none_or]
  · exact keepsStore_resolveId plugin
  · exact keepsStore_load plugin

end VirtualBlocks.Plugin
