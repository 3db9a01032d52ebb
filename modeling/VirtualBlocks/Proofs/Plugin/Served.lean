import VirtualBlocks.Files.Memory
import VirtualBlocks.Proofs.Plugin.Making
import VirtualBlocks.Proofs.Plugin.ScriptLines
import VirtualBlocks.Proofs.VirtualId.Resolved

/-!
Contract: what a component module refers to is served.

Owns:
- resolving and loading, once the request of an id and its block are known;
- the block that the store holds for each reference of a component;
- that calls for other files leave the descriptor of a file alone;
- that after a transform each reference resolves and loads, as long as its
  address can be read back and its file found again.
-/

namespace VirtualBlocks.Plugin

variable {σ : Type}

/-! ## Resolving and loading a known block -/

/-- Where the id of a block leads: to the block itself or, unless it is a style,
to the source it declares, next to its component or in a package. -/
def destination (view : FileView) (file : Path) (kind : BlockKind) (block : Block)
    (resolved : String) : Except PluginError (Option String) :=
  match block.src with
  | none => .ok (some resolved)
  | some source =>
      if kind = .styles then .ok (some resolved)
      else if source.toList.head? = some '.' then
        .ok (some (file.directory.join ⟨source⟩).normalize.text)
      else (Package.resolve view source file.directory).map (fun found => some found.text)

section Known

variable {plugin : Plugin σ} {session : Session σ} {request : BlockRequest} {block : Block}

theorem resolveId_of_resolve (view : FileView) {id : String} {importer : Option String}
    (notHelper : isHelper id = false)
    (addressed : VirtualId.isBlockRequest plugin.languages id = true)
    (requested : VirtualId.request? plugin.languages (plugin.absoluteId id importer).text =
      some request)
    (stored : session.store.resolve request = .ok block) :
    plugin.resolveId view id importer session =
      (destination view request.file request.address.kind block
        (plugin.absoluteId id importer).text, session) := by
  unfold resolveId
  rw [notHelper, if_neg Bool.false_ne_true, if_pos addressed]
  unfold resolveBlock
  rw [requested]
  dsimp only
  have found : (check (session.store.resolve request) : PluginM σ Block) session =
      (.ok block, session) := by
    rw [stored]
    rfl
  rw [bind_of_ok (rfl : currentStore session = (.ok session.store, session)), bind_of_ok found]
  unfold redirect? destination
  cases declared : block.src with
  | none =>
      rw [ite_self]
      rfl
  | some source =>
      by_cases isStyle : request.address.kind = .styles
      · rw [if_pos isStyle]
        dsimp only
        rw [if_pos isStyle]
        rfl
      · rw [if_neg isStyle]
        unfold externalSource
        dsimp only
        rw [if_neg isStyle]
        by_cases relative : source.toList.head? = some '.'
        · rw [if_pos relative, if_pos relative]
          rfl
        · rw [if_neg relative, if_neg relative]
          cases Package.resolve view source request.file.directory with
          | error error => rfl
          | ok found => rfl

theorem load_of_resolve {id : String}
    (requested : VirtualId.request? plugin.languages id = some request)
    (stored : session.store.resolve request = .ok block)
    (compiled : request.address.kind = .styles → block.code.isSome = true) :
    plugin.load id session =
      (.ok (some { code := block.served, map := block.map }), session) := by
  have code : plugin.servedCode request.address block = pure block.served := by
    unfold servedCode Block.served
    cases present : block.code with
    | some code => rfl
    | none =>
        have notStyle : request.address.kind ≠ .styles := fun isStyle => by
          have isCompiled := compiled isStyle
          rw [present] at isCompiled
          contradiction
        rw [if_neg notStyle]
        rfl
  have found : (check (session.store.resolve request) : PluginM σ Block) session =
      (.ok block, session) := by
    rw [stored]
    rfl
  unfold load
  rw [requested]
  dsimp only
  rw [bind_of_ok (rfl : currentStore session = (.ok session.store, session)), bind_of_ok found,
    code]
  exact bind_of_ok rfl

end Known

/-! ## The blocks of references -/

section References

variable {plugin : Plugin σ} {file : Path} {descriptor : Descriptor}
variable {styles : List CompiledStyle} {id : String} {address : Address} {block : Block}

theorem Reference.isCompiled
    (reference : plugin.Reference file descriptor styles id address block)
    (isStyle : address.kind = .styles) : block.code.isSome = true := by
  cases reference with
  | script present => contradiction
  | style extracted present compiled plain => rfl
  | custom present admitted => contradiction

/-- The descriptor that stays behind holds the block of each reference. -/
theorem Reference.select?_eq
    (reference : plugin.Reference file descriptor styles id address block) :
    (plugin.recorded descriptor (styles.map CompiledStyle.code)).select? address.kind
      address.index = some block := by
  cases reference with
  | script present =>
      unfold recorded
      split <;> exact present
  | @style position found style extracted present compiled plain =>
      have writtenBack :
          (plugin.config.extractsCss && !plugin.config.themeLoading) = true := by
        unfold extracts at extracted
        exact (Bool.and_eq_true_iff.1 extracted).1
      unfold recorded
      rw [if_pos writtenBack]
      show (descriptor.styles.mapIdx _)[position]? = _
      rw [List.getElem?_mapIdx, present]
      simp [compiled]
  | custom present admitted =>
      unfold recorded
      split <;> exact present

/-- The address of a reference is read back from its id when its language is not
empty and, for a script, does not start with a segment that reads as a position. -/
theorem Reference.readable
    (reference : plugin.Reference file descriptor styles id address block)
    (nonempty : address.lang ≠ "")
    (noPosition : address.kind = .script →
      Address.isIndex (Address.leadingSegment address.lang.toList) = false)
    (bounded : ∀ position ∈ address.index, position < Address.indexBound) :
    Address.ofText? plugin.languages
      (Address.toText address.kind address.index address.lang) = some address := by
  refine (Address.ofText?_toText_iff plugin.languages address.kind bounded address.lang).2
    ⟨nonempty, ?_⟩
  cases reference with
  | script present => exact .inr (noPosition rfl)
  | style extracted present compiled plain => exact .inl rfl
  | custom present admitted => exact .inl rfl

end References

/-! ## After a transform -/

theorem resolve_of_sameFile {store : Store} {file : Path} {request : BlockRequest}
    {descriptor : Descriptor} {block : Block} (same : request.file.SameFile file)
    (current : store.get? file = some descriptor)
    (selected : descriptor.select? request.address.kind request.address.index = some block) :
    store.resolve request = .ok block := by
  have found : store.get? request.file = some descriptor := by
    unfold Store.get? at current ⊢
    rw [same]
    exact current
  unfold Store.resolve
  rw [found]
  dsimp only
  rw [selected]

theorem absoluteId_write (plugin : Plugin σ) {filename : String}
    (traceable : VirtualId.IsTraceable ⟨filename⟩) (kind : BlockKind) (index : Option Nat)
    (lang : String) :
    plugin.absoluteId (VirtualId.write ⟨filename⟩ kind index lang) (some filename) =
      ⟨VirtualId.resolved ⟨filename⟩ kind index lang⟩ := by
  obtain ⟨folder, base, whole, isName, -⟩ := traceable.exists_base
  have absolute := (Path.steps_directory traceable.absolute isName whole).1
  unfold absoluteId importerDirectory Plugin.absolute
  rw [if_pos absolute]
  exact traceable.normalize_join_write kind index lang

theorem isHelper_of_isName {id : String} (isName : Path.IsName id) : isHelper id = false := by
  unfold isHelper
  rw [Bool.eq_false_iff]
  intro starts
  have within := (List.isPrefixOf_iff_prefix.1 starts).subset
  exact isName.single (within (by decide))

/-- A reference of a file whose descriptor is current resolves and loads. -/
theorem Reference.served {plugin : Plugin σ} {filename id : String} {descriptor : Descriptor}
    {styles : List CompiledStyle} {address : Address} {block : Block} {session : Session σ}
    (reference : plugin.Reference ⟨filename⟩ descriptor styles id address block)
    (traceable : VirtualId.IsTraceable ⟨filename⟩)
    (current : session.store.get? ⟨filename⟩ =
      some (plugin.recorded descriptor (styles.map CompiledStyle.code)))
    (readable : Address.ofText? plugin.languages
      (Address.toText address.kind address.index address.lang) = some address)
    (unspelled : ¬ VirtualId.extension <:+: '.' :: address.lang.toList) (view : FileView) :
    let served := VirtualId.resolved ⟨filename⟩ address.kind address.index address.lang
    plugin.resolveId view id (some filename) session =
        (destination view (Path.normalize ⟨filename⟩) address.kind block served, session) ∧
      plugin.load served session =
        (.ok (some { code := block.served, map := block.map }), session) := by
  intro served
  let request : BlockRequest := { file := Path.normalize ⟨filename⟩, address }
  have isName := traceable.isName_write address.kind address.index address.lang
  have absolute := plugin.absoluteId_write traceable address.kind address.index address.lang
  rw [← reference.id_eq] at isName absolute
  have addressed : VirtualId.isBlockRequest plugin.languages id = true := by
    unfold VirtualId.isBlockRequest
    rw [reference.id_eq, traceable.address?_write readable]
    rfl
  have requested : VirtualId.request? plugin.languages served = some request :=
    traceable.request?_resolved unspelled readable
  have stored : session.store.resolve request = .ok block :=
    resolve_of_sameFile traceable.sameFile_normalize current reference.select?_eq
  refine ⟨?_, load_of_resolve requested stored reference.isCompiled⟩
  have resolved := resolveId_of_resolve view (isHelper_of_isName isName) addressed
    (by rw [absolute]; exact requested) stored
  rw [absolute] at resolved
  exact resolved

/-- After a transform the ids in the statements of its component module are those
of the references of the component. The statements of the script, in a row and without
their indentation, are the script that the hook is given, and each of them with an id
is one of its lines; the exports stand behind the assembled code. Each reference is
served as long as no other component is put in the place of the file: it resolves to
the normal form of the file with the query of the id, or to where its block says, and
what it resolves to loads the block. -/
theorem served_of_transform (plugin : Plugin σ) {source filename : String} {session : Session σ}
    {output : TransformOutput} (traceable : VirtualId.IsTraceable ⟨filename⟩)
    (succeeded : (plugin.transform source filename session).1 = .ok (some output))
    {calls : List Call}
    (others : ∀ source other, Call.transform source other ∈ calls →
      ¬ Path.SameFile ⟨filename⟩ ⟨other⟩)
    (view : FileView) :
    let file : Path := ⟨filename⟩
    let later := plugin.run calls (plugin.transform source filename session).2
    ∃ making : Making σ,
      making.IsTrue plugin source filename session.world
        (plugin.transform source filename session).2.world ∧
      plugin.compiledStyles? source filename making.descriptor making.read =
        some making.styles ∧
      output.code = making.assembled.code ++ plugin.exportsOf file making.descriptor ∧
      (let script := (plugin.assemblyInput file (scopeId file source plugin.mode.isProduction)
          making.descriptor making.styles making.template).script.code.toList
        let lines := plugin.scriptStatements file making.descriptor making.styles
        script = Text.unindent (['\n'].intercalate (lines.map String.toList)) ∧
          ('\n' ∉ filename.toList → ∀ line ∈ lines, (∃ id, RefersTo line id) →
            line.toList ∈ script.splitOn '\n')) ∧
      (∀ id,
        (∃ statement ∈ plugin.statements file making.descriptor making.styles,
          RefersTo statement id) ↔
        ∃ address block,
          plugin.Reference file making.descriptor making.styles id address block) ∧
      ∀ id address block,
        plugin.Reference file making.descriptor making.styles id address block →
        address.lang ≠ "" → ¬ VirtualId.extension <:+: '.' :: address.lang.toList →
        (address.kind = .script →
          Address.isIndex (Address.leadingSegment address.lang.toList) = false) →
        (∀ position ∈ address.index, position < Address.indexBound) →
        ∃ query, VirtualId.query? id.toList = some query ∧
          let served := file.normalize.text ++ "?" ++ String.ofList query
          plugin.resolveId view id (some filename) later =
              (destination view file.normalize address.kind block served, later) ∧
            plugin.load served later =
              (.ok (some { code := block.served, map := block.map }), later) := by
  intro file later
  obtain ⟨making, isTrue, code⟩ := exists_making succeeded
  have current : later.store.get? file =
      some (plugin.recorded making.descriptor (making.styles.map CompiledStyle.code)) := by
    rw [get?_run_of_others plugin others]
    exact isTrue.current
  refine ⟨making, isTrue, isTrue.compiledStyles?_eq, code, ⟨toList_script _ _, ?_⟩,
    refersTo_statements_iff plugin file making.descriptor making.styles, ?_⟩
  · rintro oneLine line member ⟨id, refers⟩
    exact mem_splitOn_script oneLine _ _ member refers
  · intro id address block reference nonempty unspelled noPosition bounded
    have readable := reference.readable nonempty noPosition bounded
    refine ⟨VirtualId.blockQuery file address.kind address.index address.lang, ?_, ?_⟩
    · rw [reference.id_eq]
      exact traceable.query?_write address.kind address.index address.lang
    · exact reference.served traceable current readable unspelled view

/-! ## A component without compilers -/

/-- The built-in reader, and compilers that leave every block as it is. -/
def verbatimCollaborators : Collaborators Unit where
  parse options file source :=
    pure ((Descriptor.ofSource options file source).mapError Markup.SplitError.report)
  templateCompiler := "verbatim"
  compileTemplate _ _ template := pure { code := template.content }
  styleCompiler := "verbatim"
  compileStyle _ _ style := pure { code := style.content }
  assemble _ input _ := pure { code := input.script.code }

/-- A plugin that extracts styles and exports every custom block. -/
def verbatim : Plugin Unit where
  config := { css := false, needMap := false }
  mode := {}
  languages := .builtin
  filter := .builtin
  customBlocks := some (.tags ["*"])
  headers := ∅
  beforeAssembly := none
  workingDirectory := ⟨"/"⟩
  collaborators := verbatimCollaborators

/-- A component with a script and a style. -/
def exampleSource : String :=
  "<script>\nlet a = 1\n</script>\n<style>\na \x7b\x7d\n</style>"

/-- The extracted style of a component, after another one has been transformed. -/
theorem served_of_transform_verbatim :
    let later := verbatim.run [.load "App.vue", .transform "" "/src/Other.vue"]
      (verbatim.transform exampleSource "/src/App.vue" { world := () }).2
    verbatim.resolveId (MemoryFiles.view {}) "App.vue?vuepart=styles.0.css"
        (some "/src/App.vue") later =
          (.ok (some "/src/App.vue?vuepart=styles.0.css"), later) ∧
      verbatim.load "/src/App.vue?vuepart=styles.0.css" later =
        (.ok (some { code := "\na \x7b\x7d\n", map := none }), later) := by
  intro later
  let style : Block := { tag := "style", content := "\na \x7b\x7d\n" }
  let component : Descriptor :=
    { script := some { tag := "script", content := "\nlet a = 1\n" }, styles := [style] }
  let compiled : List CompiledStyle := [{ code := style.content }]
  let session : Session Unit := { world := () }
  have parsedHere : verbatim.parsed? exampleSource "/src/App.vue" session.world =
      some (component, ()) := by
    decide +kernel
  have compiledHere : verbatim.compiledStyles? exampleSource "/src/App.vue" component () =
      some compiled := by
    decide +kernel
  have traceable : VirtualId.IsTraceable ⟨"/src/App.vue"⟩ :=
    { absolute := by decide
      noParent := by decide
      extended := ⟨"/src/App".toList, by decide⟩
      noMark := by decide
      noBackslash := by decide }
  have others : ∀ source other,
      Call.transform source other ∈ [.load "App.vue", .transform "" "/src/Other.vue"] →
        ¬ Path.SameFile ⟨"/src/App.vue"⟩ ⟨other⟩ := by
    intro source other member
    simp only [List.mem_cons, List.not_mem_nil, or_false, reduceCtorEq, false_or,
      Call.transform.injEq] at member
    rw [member.2]
    decide
  obtain ⟨⟨output, succeeded, -⟩, -⟩ :=
    transform_of_compiledStyles?_eq_some parsedHere compiledHere
  obtain ⟨making, isTrue, compiledAgain, -, -, -, served⟩ :=
    served_of_transform verbatim traceable succeeded others (MemoryFiles.view {})
  obtain ⟨isComponent, isRead⟩ := Prod.mk.inj (Option.some.inj (parsedHere.symm.trans isTrue.parsed))
  rw [← isComponent, ← isRead] at compiledAgain
  have isCompiled := Option.some.inj (compiledHere.symm.trans compiledAgain)
  rw [← isComponent, ← isCompiled] at served
  have reference : verbatim.Reference ⟨"/src/App.vue"⟩ component compiled
      (VirtualId.encode verbatim.languages ⟨"/src/App.vue"⟩ (some "css") .styles (some 0))
      { kind := .styles, lang := "css", index := some 0 }
      { style with code := some style.content } :=
    @Reference.style Unit verbatim _ _ _ 0 style { code := style.content } (by decide) rfl rfl
      (by decide)
  have id : VirtualId.encode verbatim.languages ⟨"/src/App.vue"⟩ (some "css") .styles (some 0) =
      "App.vue?vuepart=styles.0.css" := by
    decide +kernel
  have text : (Path.normalize ⟨"/src/App.vue"⟩).text = "/src/App.vue" := by decide +kernel
  rw [id] at reference
  obtain ⟨query, isQuery, resolves, loads⟩ :=
    served _ _ _ reference (by decide) (by decide) (by decide) (by decide)
  obtain rfl : query = "vuepart=styles.0.css".toList :=
    Option.some.inj (isQuery.symm.trans (by decide +kernel))
  rw [text] at resolves loads
  exact ⟨resolves, loads⟩

end VirtualBlocks.Plugin
