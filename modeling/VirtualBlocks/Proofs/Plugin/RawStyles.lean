import VirtualBlocks.Proofs.Markup.Component
import VirtualBlocks.Proofs.Plugin.Extraction
import VirtualBlocks.Proofs.Plugin.Failures
import VirtualBlocks.Proofs.VirtualId.Joined

/-!
Contract: the raw code of styles, as it is compiled and as it is loaded.

Owns:
- headers that are literal texts;
- the content that the style compiler is given for each style of a transform: the
  content of the block, behind the header of its declared language unless it is
  empty;
- the code that a style is loaded as when styles stay in the component module: the
  content of the block behind the header of the language that it is addressed by;
- exactly when the two are the same.
-/

namespace VirtualBlocks.Plugin

variable {σ : Type}

/-! ## Literal headers -/

/-- No header is computed. -/
def HasLiteralHeaders (plugin : Plugin σ) : Prop :=
  ∀ lang header, plugin.headers.get? lang = some header → ∃ text, header = .literal text

/-- The literal header of a language; empty when there is none. -/
def headerText (plugin : Plugin σ) (lang : String) : String :=
  match plugin.headers.get? lang with
  | some (.literal text) => text
  | _ => ""

section Headers

variable {plugin : Plugin σ} (literal : plugin.HasLiteralHeaders)
include literal

theorem render_eq {lang : String} {header : Header σ}
    (found : plugin.headers.get? lang = some header) (world : σ) :
    header.render world = (plugin.headerText lang, world) := by
  obtain ⟨text, rfl⟩ := literal lang header found
  unfold headerText
  rw [found]
  rfl

theorem withHeader_eq (lang text : String) (session : Session σ) :
    plugin.withHeader lang text session = (.ok (plugin.headerText lang ++ text), session) := by
  unfold withHeader
  cases found : plugin.headers.get? lang with
  | none =>
      have noText : plugin.headerText lang = "" := by
        unfold headerText
        rw [found]
      rw [noText, String.empty_append]
      rfl
  | some header => exact bind_of_ok (consult_of_answer (render_eq literal found session.world))

end Headers

/-! ## What the compiler is given -/

section Compiled

variable {plugin : Plugin σ} {file : Path} {source : String} {world later : σ}

theorem Consults.runs_of_mem {consultations : List Consultation} {one : Consultation}
    (consults : Consults plugin file source consultations world later)
    (member : one ∈ consultations) :
    ∃ before after, one.Runs plugin file source before after := by
  induction consults with
  | nothing => contradiction
  | next runs _ inductionHypothesis =>
      rcases List.mem_cons.1 member with rfl | further
      · exact ⟨_, _, runs⟩
      · exact inductionHypothesis further

theorem StyleRun.content_input (literal : plugin.HasLiteralHeaders) {run : StyleRun}
    (hasHeader : run.HasHeader plugin)
    (ran : ∀ one ∈ run.consultations, ∃ before after, one.Runs plugin file source before after) :
    run.input.content =
      if run.block.content = "" then ""
      else plugin.headerText run.lang ++ run.block.content := by
  unfold StyleRun.HasHeader at hasHeader
  unfold StyleRun.input
  cases given : run.header with
  | none =>
      rw [given, Option.isSome_none] at hasHeader
      by_cases empty : run.block.content = ""
      · rw [if_pos empty]
        exact empty
      · have noHeader : plugin.headers.get? run.lang = none := by
          simpa [empty] using hasHeader
        have noText : plugin.headerText run.lang = "" := by
          unfold headerText
          rw [noHeader]
        rw [if_neg empty, noText, String.empty_append]
  | some rendered =>
      rw [given, Option.isSome_some] at hasHeader
      rw [if_neg (hasHeader.1 rfl).1]
      have consulted : Consultation.header run.lang rendered ∈ run.consultations := by
        unfold StyleRun.consultations
        rw [given]
        exact List.mem_cons_self
      obtain ⟨before, after, header, found, answered⟩ := ran _ consulted
      rw [render_eq literal found] at answered
      rw [(Prod.mk.inj answered).1]

/-- The contents that the compiler is given in a transform. -/
theorem Account.IsTrue.content_input {account : Account} (literal : plugin.HasLiteralHeaders)
    (isTrue : account.IsTrue plugin file source world later) {run : StyleRun}
    (member : run ∈ account.compiled) :
    run.input.content =
      if run.block.content = "" then ""
      else plugin.headerText run.lang ++ run.block.content := by
  have among : run ∈ account.compiled ++ account.failed.toList :=
    List.mem_append_left _ member
  refine @StyleRun.content_input σ plugin file source literal run
    (isTrue.styles.headers run among) ?_
  intro one inRun
  refine isTrue.consults.runs_of_mem ?_
  unfold Account.consultations
  refine List.mem_cons_of_mem _ (List.mem_append_left _ ?_)
  exact List.mem_flatMap_of_mem among inRun

end Compiled

/-! ## What is loaded -/

section Loaded

variable {plugin : Plugin σ} {file : Path}

/-- The built-in reader leaves every block without compiled code. -/
theorem code_of_mem_blocks {options : ParseOptions} {source : String} {descriptor : Descriptor}
    {block : Block} (parsed : Descriptor.ofSource options file source = .ok descriptor)
    (member : block ∈ descriptor.blocks) : block.code = none := by
  obtain ⟨element, -, rfl⟩ :=
    Descriptor.exists_element_of_mem_blocks options file source parsed member
  unfold Markup.Element.mappedBlock
  dsimp only
  split <;> rfl

/-- A style without compiled code is loaded as its content behind the header of the
language that it is addressed by. -/
theorem load_of_raw_style (literal : plugin.HasLiteralHeaders)
    (absolute : file.isAbsolute = true) (extended : VirtualId.extension <:+ file.text.toList)
    (noMark : '?' ∉ file.text.toList) (noBackslash : '\\' ∉ file.text.toList)
    {session : Session σ} {descriptor : Descriptor} {position : Nat} {block : Block}
    (current : session.store.get? file = some descriptor)
    (present : descriptor.styles[position]? = some block) (raw : block.code = none)
    (bounded : position < Address.indexBound) {lang : String} (nonempty : lang ≠ "")
    (unspelled : ¬ VirtualId.extension <:+: '.' :: lang.toList) :
    plugin.load (file.directory.join
        ⟨VirtualId.write file .styles (some position) lang⟩).text session =
      (.ok (some { code := plugin.headerText lang ++ block.content, map := block.map }),
        session) := by
  let address : Address := { kind := .styles, lang, index := some position }
  obtain ⟨owner, same, requested⟩ := VirtualId.request?_joined absolute extended noMark noBackslash
    unspelled (ofText?_styleText plugin.languages nonempty bounded)
  have stored : session.store.resolve { file := owner, address } = .ok block :=
    resolve_of_sameFile same current present
  have code : plugin.servedCode address block session =
      (.ok (plugin.headerText lang ++ block.content), session) := by
    unfold servedCode
    rw [raw]
    exact withHeader_eq literal lang block.content session
  have found : (check (session.store.resolve { file := owner, address }) : PluginM σ Block)
      session = (.ok block, session) := by
    rw [stored]
    rfl
  unfold load
  rw [requested]
  dsimp only
  rw [bind_of_ok (rfl : currentStore session = (.ok session.store, session)), bind_of_ok found,
    bind_of_ok code]
  rfl

/-- The language that a style is addressed by has the header that the style is compiled
behind. -/
structure SameHeader (plugin : Plugin σ) (style : Block) : Prop where
  empty : style.content = "" →
    plugin.headerText (plugin.languages.forBlock .styles style) = ""
  undeclared : style.content ≠ "" → style.lang = none →
    plugin.headerText (plugin.languages.forBlock .styles style) = plugin.headerText "css"

theorem loaded_eq_compiled_iff (plugin : Plugin σ) (style : Block) :
    plugin.headerText (plugin.languages.forBlock .styles style) ++ style.content =
        (if style.content = "" then ""
          else plugin.headerText (style.lang.getD "css") ++ style.content) ↔
      plugin.SameHeader style := by
  by_cases empty : style.content = ""
  · rw [if_pos empty, empty, String.append_empty]
    exact ⟨fun same => ⟨fun _ => same, fun nonempty => absurd empty nonempty⟩,
      fun same => same.empty empty⟩
  · rw [if_neg empty, String.append_left_inj]
    constructor
    · intro same
      refine ⟨fun isEmpty => absurd isEmpty empty, fun _ undeclared => ?_⟩
      rw [same, undeclared, Option.getD_none]
    · intro same
      cases declared : style.lang with
      | none => exact same.undeclared empty declared
      | some lang =>
          unfold Languages.forBlock Languages.forKind
          rw [declared]
          rfl

end Loaded

/-! ## After a transform -/

section Transformed

variable {plugin : Plugin σ} {source filename : String} {session : Session σ}
  {output : TransformOutput} {descriptor : Descriptor} {world : σ}

/-- A transform that gives a module has an account of its success. -/
theorem exists_account_of_succeeded
    (succeeded : (plugin.transform source filename session).1 = .ok (some output)) :
    ∃ (account : Account) (descriptor : Descriptor) (world : σ),
      account.IsTrue plugin ⟨filename⟩ source session.world
        (plugin.transform source filename session).2.world ∧
      account.Succeeds ∧ account.read = .ok descriptor ∧
      plugin.parsed? source filename session.world = some (descriptor, world) := by
  cases accepted : plugin.filter.accepts filename with
  | false =>
      rw [transform_of_rejected accepted] at succeeded
      cases succeeded
  | true =>
      obtain ⟨account, later, isTrue, ends, isLater⟩ :=
        exists_account plugin ⟨filename⟩ source session
      rw [transform_of_accepted accepted] at succeeded ⊢
      have succeeds : account.Succeeds := by
        rw [← ends.ok_iff]
        cases outcome : (plugin.transformFile ⟨filename⟩ source session).1 with
        | ok module => exact ⟨module, rfl⟩
        | error error =>
            rw [outcome] at succeeded
            cases succeeded
      obtain ⟨descriptor, read⟩ := succeeds.read
      have reads : ∃ world, plugin.collaborators.parse plugin.parseOptions ⟨filename⟩ source
          session.world = (account.read, world) := by
        have consults := isTrue.consults
        unfold Account.consultations at consults
        cases consults with
        | next runs _ => exact ⟨_, runs⟩
      obtain ⟨world, reads⟩ := reads
      refine ⟨account, descriptor, world, ?_, succeeds, read, ?_⟩
      · rw [isLater]
        exact isTrue
      · unfold parsed?
        rw [if_pos accepted, reads, read]

/-- Behind a transform that leaves styles in the component module, the descriptor that was
read is current. -/
theorem get?_transform_of_inline
    (inline : (plugin.config.extractsCss && !plugin.config.themeLoading) = false)
    (succeeded : (plugin.transform source filename session).1 = .ok (some output))
    (parsed : plugin.parsed? source filename session.world = some (descriptor, world)) :
    (plugin.transform source filename session).2.store.get? ⟨filename⟩ = some descriptor := by
  obtain ⟨making, isTrue, -⟩ := exists_making succeeded
  obtain ⟨rfl, -⟩ := Prod.mk.inj (Option.some.inj (parsed.symm.trans isTrue.parsed))
  rw [isTrue.current, recorded, inline]
  rfl

end Transformed

/-- When styles stay in the component module, the compiler is given the content of each
style behind the header of its declared language, `css` if there is none, and an empty
content as it is. Behind the transform a style is loaded as its content behind the header
of the language that it is addressed by. The two are the same exactly when these headers
are, and the second one is empty for an empty content. -/
theorem raw_style_served_iff (plugin : Plugin σ) {source filename : String} {session : Session σ}
    {output : TransformOutput}
    (inline : (plugin.config.extractsCss && !plugin.config.themeLoading) = false)
    (literal : plugin.HasLiteralHeaders)
    (reader : plugin.collaborators.parse = fun options file source =>
      pure ((Descriptor.ofSource options file source).mapError Markup.SplitError.report))
    (absolute : (⟨filename⟩ : Path).isAbsolute = true)
    (extended : VirtualId.extension <:+ filename.toList) (noMark : '?' ∉ filename.toList)
    (noBackslash : '\\' ∉ filename.toList)
    (succeeded : (plugin.transform source filename session).1 = .ok (some output)) :
    let file : Path := ⟨filename⟩
    let later := (plugin.transform source filename session).2
    ∃ (account : Account) (descriptor : Descriptor) (world : σ),
      account.IsTrue plugin file source session.world later.world ∧
      plugin.parsed? source filename session.world = some (descriptor, world) ∧
      account.compiled.map StyleRun.block = descriptor.styles ∧
      ∀ (position : Nat) (run : StyleRun), account.compiled[position]? = some run →
        position < Address.indexBound →
        let lang := plugin.languages.forBlock .styles run.block
        lang ≠ "" → ¬ VirtualId.extension <:+: '.' :: lang.toList →
        ∃ served,
          plugin.load (file.directory.join ⟨VirtualId.ofBlock plugin.languages file run.block
              .styles (some position)⟩).text later = (.ok (some served), later) ∧
            served.code = plugin.headerText lang ++ run.block.content ∧
            (served.code = run.input.content ↔ plugin.SameHeader run.block) := by
  intro file later
  obtain ⟨account, descriptor, world, isTrue, succeeds, read, parsed⟩ :=
    exists_account_of_succeeded succeeded
  have current := get?_transform_of_inline inline succeeded parsed
  have blocks : account.compiled.map StyleRun.block = descriptor.styles := by
    have complete := isTrue.styles.complete succeeds.styles
    unfold Account.styles at complete
    rw [read] at complete
    exact complete
  refine ⟨account, descriptor, world, isTrue, parsed, blocks, ?_⟩
  intro position run compiled bounded lang nonempty unspelled
  have present : descriptor.styles[position]? = some run.block := by
    rw [← blocks, List.getElem?_map, compiled]
    rfl
  have raw : run.block.code = none := by
    refine code_of_mem_blocks (split_of_parsed? reader parsed) ?_
    unfold Descriptor.blocks
    exact List.mem_append_left _ (List.mem_append_right _ (List.mem_of_getElem? present))
  refine ⟨_, load_of_raw_style literal absolute extended noMark noBackslash current present raw
    bounded nonempty unspelled, rfl, ?_⟩
  rw [isTrue.content_input literal (List.mem_of_getElem? compiled)]
  exact loaded_eq_compiled_iff plugin run.block

/-- A plugin without compilers that keeps styles in the component module. -/
def headed (config : Config) : Plugin Unit :=
  { verbatim with
    config
    languages := config.languages
    headers := config.data.map Header.literal }

/-- Styles are written in SCSS by default, and have a header in that language. -/
def scssByDefault : Config :=
  { needMap := false
    data := Table.ofList [("scss", "$a: 1;")]
    defaultLang := Table.ofList [("styles", "scss")] }

theorem hasLiteralHeaders_headed (config : Config) : (headed config).HasLiteralHeaders := by
  intro lang header found
  have asText : (config.data.get? lang).map Header.literal = some header :=
    (Table.get?_map Header.literal config.data lang).symm.trans found
  obtain ⟨text, -, isLiteral⟩ := Option.map_eq_some_iff.1 asText
  exact ⟨text, isLiteral.symm⟩

/-- A style that declares its language is served behind the header that it is compiled
behind. -/
theorem raw_style_served_scss :
    let later :=
      ((headed scssByDefault).transform "<style lang=\"scss\">a</style>" "/src/App.vue"
        { world := () }).2
    ∃ (run : StyleRun) (served : LoadOutput),
      run.block.content = "a" ∧ run.block.lang = some "scss" ∧
      (headed scssByDefault).load "/src/App.vue?vuepart=styles.0.scss" later =
        (.ok (some served), later) ∧
      served.code = "$a: 1;a" ∧ served.code = run.input.content := by
  intro later
  let plugin := headed scssByDefault
  let session : Session Unit := { world := () }
  let style : Block :=
    { tag := "style", content := "a", lang := some "scss"
      attributes := Table.ofList [("lang", .text "scss")] }
  have parsedHere : plugin.parsed? "<style lang=\"scss\">a</style>" "/src/App.vue" session.world =
      some ({ styles := [style] }, ()) := by
    decide +kernel
  have compiledHere : plugin.compiledStyles? "<style lang=\"scss\">a</style>" "/src/App.vue"
      { styles := [style] } () = some [{ code := "$a: 1;a" }] := by
    decide +kernel
  obtain ⟨⟨output, succeeded, -⟩, -⟩ :=
    transform_of_compiledStyles?_eq_some parsedHere compiledHere
  obtain ⟨account, descriptor, world, isTrue, parsed, blocks, serves⟩ :=
    raw_style_served_iff plugin rfl (hasLiteralHeaders_headed scssByDefault) rfl (by decide)
      ⟨"/src/App".toList, by decide⟩ (by decide) (by decide) succeeded
  obtain ⟨rfl, -⟩ := Prod.mk.inj (Option.some.inj (parsedHere.symm.trans parsed))
  obtain ⟨run, single, isStyle⟩ := List.map_eq_singleton_iff.1 blocks
  have first : account.compiled[0]? = some run := by
    rw [single]
    rfl
  have language : plugin.languages.forBlock .styles run.block = "scss" := by
    rw [isStyle]
    rfl
  obtain ⟨served, loaded, code, same_iff⟩ := serves 0 run first (by decide)
    (by rw [language]; decide) (by rw [language]; decide)
  rw [isStyle] at loaded code same_iff
  have declared : plugin.SameHeader style :=
    { empty := fun empty => absurd empty (by decide)
      undeclared := fun _ undeclared => by cases undeclared }
  have id : ((⟨"/src/App.vue"⟩ : Path).directory.join
      ⟨VirtualId.ofBlock plugin.languages ⟨"/src/App.vue"⟩ style .styles (some 0)⟩).text =
        "/src/App.vue?vuepart=styles.0.scss" := by
    decide +kernel
  have header : plugin.headerText (plugin.languages.forBlock .styles style) = "$a: 1;" := by
    decide +kernel
  rw [id] at loaded
  refine ⟨run, served, ?_, ?_, loaded, ?_, same_iff.2 declared⟩
  · rw [isStyle]
  · rw [isStyle]
  · rw [code, header]
    rfl

/-- All styles in CSS have a header, an empty one as well. -/
def headerInCss : Config :=
  { needMap := false
    data := Table.ofList [("css", "/**/")] }

/-- The only style of a component is given to the compiler, which answers with what it is
given, as one text, and is loaded behind the transform as another one. -/
structure IsServed (config : Config) (source id compiled loaded : String) : Prop where
  compile : ∃ style,
    (headed config).parsed? source "/src/App.vue" () = some ({ styles := [style] }, ()) ∧
      (headed config).compiledStyles? source "/src/App.vue" { styles := [style] } () =
        some [{ code := compiled }]
  load : ((headed config).load id
      ((headed config).transform source "/src/App.vue" { world := () }).2).1 =
    .ok (some { code := loaded, map := none })

theorem isServed_of_parsed? {config : Config} (inline : config.extractsCss = false)
    {source id compiled : String} (style : Block) (lang : String)
    (parsed : (headed config).parsed? source "/src/App.vue" () =
      some ({ styles := [style] }, ()))
    (given : (headed config).compiledStyles? source "/src/App.vue" { styles := [style] } () =
      some [{ code := compiled }])
    (raw : style.code = none) (unmapped : style.map = none) (nonempty : lang ≠ "")
    (unspelled : ¬ VirtualId.extension <:+: '.' :: lang.toList)
    (written : ((⟨"/src/App.vue"⟩ : Path).directory.join
      ⟨VirtualId.write ⟨"/src/App.vue"⟩ .styles (some 0) lang⟩).text = id) :
    IsServed config source id compiled ((headed config).headerText lang ++ style.content) where
  compile := ⟨style, parsed, given⟩
  load := by
    obtain ⟨⟨output, succeeded, -⟩, -⟩ := @transform_of_compiledStyles?_eq_some _ (headed config)
      source "/src/App.vue" { world := () } _ _ _ parsed given
    have inlineHere : ((headed config).config.extractsCss &&
        !(headed config).config.themeLoading) = false := by
      show (config.extractsCss && !config.themeLoading) = false
      rw [inline]
      rfl
    have current := get?_transform_of_inline inlineHere succeeded parsed
    have loaded := @load_of_raw_style _ (headed config) ⟨"/src/App.vue"⟩
      (hasLiteralHeaders_headed config) (by decide) ⟨"/src/App".toList, by decide⟩ (by decide)
      (by decide) _ _ 0 style current rfl raw (by decide) lang nonempty unspelled
    rw [written, unmapped] at loaded
    rw [loaded]

/-- Two styles that are served otherwise than they are compiled: one without a language,
which is compiled as CSS and addressed in the default language, and an empty one, which is
compiled without the header that it is served behind. -/
theorem exists_style_served_otherwise :
    IsServed scssByDefault "<style>a</style>" "/src/App.vue?vuepart=styles.0.scss"
        "a" "$a: 1;a" ∧
      IsServed headerInCss "<style></style>" "/src/App.vue?vuepart=styles.0.css" "" "/**/" := by
  constructor
  · refine isServed_of_parsed? rfl { tag := "style", content := "a" } "scss" ?_ ?_ rfl rfl
      (by decide) (by decide) ?_
    · decide +kernel
    · decide +kernel
    · decide +kernel
  · refine isServed_of_parsed? rfl { tag := "style" } "css" ?_ ?_ rfl rfl
      (by decide) (by decide) ?_
    · decide +kernel
    · decide +kernel
    · decide +kernel

end VirtualBlocks.Plugin
