import VirtualBlocks.Proofs.Json.Tokens
import VirtualBlocks.Proofs.Plugin.Served

/-!
Contract: styles that are extracted from a component module.

Owns:
- the positions of the plain styles;
- the lines of the script: the statements of the entry script, and one import for
  each plain style;
- the styles that stay, and the descriptor with the compiled code of all styles;
- that a style is loaded as compiled, in whatever language it is asked for.

Does not own: which ids a component module refers to (`Proofs.Plugin.References`).
-/

namespace VirtualBlocks.Plugin

open Text

variable {σ : Type}

/-! ## The parts of a module -/

/-- The module that is put together from these parts. The hook sees them first. -/
def moduleOf (plugin : Plugin σ) (file : Path) (descriptor : Descriptor)
    (template : Option CompiledTemplate) (parts : AssemblyInput) : PluginM σ TransformOutput := do
  let input ← plugin.runBeforeAssembly parts
  let assembled ← consult (plugin.collaborators.assemble file input plugin.assemblyOptions)
  return {
    code := assembled.code ++ plugin.exportsOf file descriptor
    map := assembled.map.getD .empty
    warnings := (template.map CompiledTemplate.tips).getD [] }

theorem finish_eq (plugin : Plugin σ) (file : Path) (source : String) (descriptor : Descriptor)
    (styles : List CompiledStyle) (template : Option CompiledTemplate) :
    plugin.finish file source descriptor styles template =
      plugin.moduleOf file descriptor template
        (plugin.assemblyInput file (scopeId file source plugin.mode.isProduction) descriptor
          styles template) :=
  rfl

/-! ## Plain styles -/

/-- The positions of the plain styles, in increasing order. -/
structure ArePlain (blocks : List Block) (styles : List CompiledStyle) (positions : List Nat) :
    Prop where
  increasing : positions.Pairwise (· < ·)
  mem_iff : ∀ position, position ∈ positions ↔
    ∃ block style, blocks[position]? = some block ∧ styles[position]? = some style ∧
      style.isModule = false ∧ block.isScoped = false

def plainPositions (paired : List (Block × CompiledStyle)) (first : Nat) : List Nat :=
  ((paired.zipIdx first).filter (fun entry => isPlain entry.1.1 entry.1.2)).map Prod.snd

theorem styleImports_eq_map (plugin : Plugin σ) (file : Path) (first : Nat)
    (paired : List (Block × CompiledStyle)) :
    plugin.styleImports file first paired =
      (plainPositions paired first).map (plugin.styleImport file) := by
  induction paired generalizing first with
  | nil => rfl
  | cons pair rest inductionHypothesis =>
      unfold plainPositions at inductionHypothesis ⊢
      rw [styleImports, inductionHypothesis, List.zipIdx_cons, List.filter_cons]
      dsimp only
      split <;> rfl

theorem arePlain_plainPositions (blocks : List Block) (styles : List CompiledStyle) :
    ArePlain blocks styles (plainPositions (blocks.zip styles) 0) where
  increasing := by
    have inOrder : ((blocks.zip styles).zipIdx.map Prod.snd).Pairwise (· < ·) := by
      rw [List.zipIdx_map_snd]
      exact List.pairwise_lt_range' 1
    exact inOrder.sublist (List.filter_sublist.map Prod.snd)
  mem_iff position := by
    unfold plainPositions
    simp only [List.mem_map, List.mem_filter]
    constructor
    · rintro ⟨⟨⟨block, style⟩, _⟩, ⟨member, plain⟩, rfl⟩
      obtain ⟨present, compiled⟩ :=
        List.getElem?_zip_eq_some.1 (List.mk_mem_zipIdx_iff_getElem?.1 member)
      exact ⟨block, style, present, compiled, isPlain_iff.1 plain⟩
    · rintro ⟨block, style, present, compiled, plain⟩
      have member : ((block, style), position) ∈ (blocks.zip styles).zipIdx :=
        List.mk_mem_zipIdx_iff_getElem?.2 (List.getElem?_zip_eq_some.2 ⟨present, compiled⟩)
      exact ⟨_, ⟨member, isPlain_iff.2 plain⟩, rfl⟩

/-! ## The lines of the script -/

/-- What the import of a style starts with. -/
def importStart : List Char := "import '".toList

section Lines

variable {plugin : Plugin σ} {file : Path}

theorem isFlush_styleImport (oneLine : '\n' ∉ file.text.toList) (position : Nat) :
    IsFlush (plugin.styleImport file position).toList := by
  have idOneLine : '\n' ∉ (VirtualId.encode plugin.languages file (some "css") .styles
      (some position)).toList :=
    VirtualId.notMem_write file _ _ _ (by decide) (by decide) oneLine
  exact isFlush_keyword (by decide) idOneLine

/-- A statement of the entry script has no indentation and is no import of a style. -/
theorem of_mem_entryStatements {descriptor : Descriptor} {styles : List CompiledStyle}
    (themeless : plugin.config.themeLoading = false) (oneLine : '\n' ∉ file.text.toList) :
    ∀ line ∈ plugin.entryStatements file descriptor styles,
      IsFlush line.toList ∧ ¬ importStart <+: line.toList := by
  -- a keyword that is long enough decides whether a statement is an import
  have opened {keyword rest : String} (flush : IsFlush keyword.toList)
      (other : ¬ importStart <+: keyword.toList)
      (long : importStart.length ≤ keyword.toList.length) (restOneLine : '\n' ∉ rest.toList) :
      IsFlush (keyword ++ rest).toList ∧ ¬ importStart <+: (keyword ++ rest).toList := by
    rw [String.toList_append]
    exact ⟨flush.append restOneLine, fun starts =>
      other (List.prefix_of_prefix_length_le starts (List.prefix_append _ _) long)⟩
  intro line member
  unfold entryStatements at member
  split at member
  · contradiction
  · rename_i script _
    have idOneLine :
        '\n' ∉ (VirtualId.ofBlock plugin.languages file script .script none).toList :=
      VirtualId.notMem_write file _ _ _ (by decide) (by decide) oneLine
    have quotedOneLine := lineFeed_notMem_inQuotes idOneLine
    unfold entryLines at member
    simp only [themeless, Bool.false_eq_true, if_false, List.append_nil, List.mem_append,
      List.mem_singleton, List.mem_ite_nil_right] at member
    rcases member with ((rfl | rfl) | rfl) | ⟨-, rfl⟩
    · exact opened ⟨by decide, by decide⟩ (by decide) (by decide) quotedOneLine
    · exact opened ⟨by decide, by decide⟩ (by decide) (by decide) quotedOneLine
    · exact ⟨⟨by decide, by decide⟩, by decide⟩
    · exact opened ⟨by decide, by decide⟩ (by decide) (by decide)
        (Json.lineFeed_notMem_quoted _)

end Lines

/-! ## The split -/

section Split

variable {plugin : Plugin σ} {file : Path} {scope : String} {descriptor : Descriptor}
variable {styles : List CompiledStyle} {template : Option CompiledTemplate}

/-- Without styles there is nothing to split, so it does not matter that they are not
extracted then. -/
theorem ite_extracts {α : Type} (extracting : plugin.config.extractsCss = true)
    (themeless : plugin.config.themeLoading = false) (split : List (Block × CompiledStyle) → α)
    (whole : α) (empty : styles = [] → whole = split []) :
    (if plugin.extracts styles then split (descriptor.styles.zip styles) else whole) =
      split (descriptor.styles.zip styles) := by
  unfold extracts
  cases styles with
  | nil => simp [empty rfl]
  | cons style rest => simp [extracting, themeless]

/-- The lines of the script: those of the entry script, and the imports of the plain
styles. -/
theorem toList_script_of_extracting (extracting : plugin.config.extractsCss = true)
    (themeless : plugin.config.themeLoading = false) (oneLine : '\n' ∉ file.text.toList) :
    (plugin.assemblyInput file scope descriptor styles template).script.code.toList =
      ['\n'].intercalate ((plugin.entryStatements file descriptor styles ++
        (plainPositions (descriptor.styles.zip styles) 0).map
          (plugin.styleImport file)).map String.toList) := by
  have imports : (if plugin.extracts styles then
      plugin.styleImports file 0 (descriptor.styles.zip styles) else []) =
        (plainPositions (descriptor.styles.zip styles) 0).map (plugin.styleImport file) := by
    rw [ite_extracts extracting themeless (plugin.styleImports file 0) [] (fun _ => rfl),
      styleImports_eq_map]
  rw [toList_script, scriptStatements, imports]
  apply unindent_intercalate
  rw [List.forall_mem_map]
  intro line member
  rcases List.mem_append.1 member with inEntry | inImports
  · exact (of_mem_entryStatements themeless oneLine line inEntry).1
  · obtain ⟨position, -, rfl⟩ := List.mem_map.1 inImports
    exact isFlush_styleImport oneLine position

/-- The styles that stay: those that are not plain, without code and map. -/
theorem styles_assemblyInput (extracting : plugin.config.extractsCss = true)
    (themeless : plugin.config.themeLoading = false) :
    (plugin.assemblyInput file scope descriptor styles template).styles =
      ((descriptor.styles.zip styles).filter
        (fun pair => pair.2.isModule || pair.1.isScoped)).map
          (fun pair => { pair.2 with code := "", map := none }) := by
  simp only [← not_isPlain]
  unfold assemblyInput
  dsimp only
  rw [themeless, if_neg Bool.false_ne_true]
  refine (ite_extracts extracting themeless keptStyles styles ?_).trans rfl
  rintro rfl
  rfl

/-- The published descriptor is the parsed one, except that each style has the compiled
code of the style at its position. -/
structure WritesBack (descriptor : Descriptor) (styles : List CompiledStyle)
    (published : Descriptor) : Prop where
  styleCount : styles.length = descriptor.styles.length
  onlyStyles : published = { descriptor with styles := published.styles }
  publishedCount : published.styles.length = descriptor.styles.length
  code : ∀ (position : Nat) (block : Block) (style : CompiledStyle),
    descriptor.styles[position]? = some block → styles[position]? = some style →
      published.styles[position]? = some { block with code := some style.code }

theorem writesBack_recorded (extracting : plugin.config.extractsCss = true)
    (themeless : plugin.config.themeLoading = false)
    (sameLength : styles.length = descriptor.styles.length) :
    WritesBack descriptor styles
      (plugin.recorded descriptor (styles.map CompiledStyle.code)) := by
  have written : plugin.recorded descriptor (styles.map CompiledStyle.code) =
      withStyleCodes descriptor (styles.map CompiledStyle.code) := by
    unfold recorded
    rw [extracting, themeless]
    rfl
  rw [written]
  constructor
  · exact sameLength
  · rfl
  · exact List.length_mapIdx
  · intro position block style present compiled
    simp [withStyleCodes, present, compiled]

end Split

/-! ## Loading -/

theorem ofText?_styleText (languages : Languages) {lang : String} (nonempty : lang ≠ "")
    {position : Nat} (bounded : position < Address.indexBound) :
    Address.ofText? languages (Address.toText .styles (some position) lang) =
      some { kind := .styles, lang, index := some position } := by
  refine (Address.ofText?_toText_iff languages .styles ?_ lang).2 ⟨nonempty, .inl rfl⟩
  rintro _ ⟨⟩
  exact bounded

theorem named_of_extended {file : Path} (extended : VirtualId.extension <:+ file.text.toList) :
    VirtualId.EndsInExtension (VirtualId.baseName (VirtualId.withoutQuery file.text.toList)) :=
  (VirtualId.endsInExtension_of_suffix extended).withoutQuery.baseName

/-- A style with compiled code is loaded as that code, in whatever language it is asked
for, unless the language spells the extension. -/
theorem load_of_styleCode {plugin : Plugin σ} {filename code lang : String}
    {session : Session σ} {published : Descriptor} {position : Nat} {block : Block}
    (extended : VirtualId.extension <:+ filename.toList) (noMark : '?' ∉ filename.toList)
    (current : session.store.get? ⟨filename⟩ = some published)
    (present : published.styles[position]? = some { block with code := some code })
    (bounded : position < Address.indexBound) (nonempty : lang ≠ "")
    (unspelled : ¬ VirtualId.extension <:+: '.' :: lang.toList) :
    ∃ query,
      VirtualId.query? (VirtualId.encode plugin.languages ⟨filename⟩ (some lang) .styles
        (some position)).toList = some query ∧
      plugin.load (filename ++ "?" ++ String.ofList query) session =
        (.ok (some { code, map := block.map }), session) := by
  let file : Path := ⟨filename⟩
  let query := VirtualId.blockQuery file .styles (some position) lang
  have whole : filename ++ "?" ++ String.ofList query =
      String.ofList (filename.toList ++ '?' :: query) := by
    apply String.toList_inj.1
    simp
  have requested := @VirtualId.request?_of_extended_name plugin.languages file _ noMark noMark
    extended _ _ _ unspelled _ (ofText?_styleText plugin.languages nonempty bounded)
  rw [String.ofList_toList] at requested
  have stored : session.store.resolve
      { file := ⟨filename⟩, address := { kind := .styles, lang, index := some position } } =
        .ok { block with code := some code } :=
    resolve_of_sameFile rfl current present
  refine ⟨query, VirtualId.query?_write file _ _ _ (named_of_extended extended), ?_⟩
  rw [whole]
  exact load_of_resolve requested stored (fun _ => rfl)

/-- The id in the import of a style has the address of the style. -/
theorem address?_styleImport (plugin : Plugin σ) {file : Path}
    (extended : VirtualId.extension <:+ file.text.toList) {position : Nat}
    (bounded : position < Address.indexBound) :
    VirtualId.address? plugin.languages
        (VirtualId.encode plugin.languages file (some "css") .styles (some position)) =
      some { kind := .styles, lang := "css", index := some position } := by
  have query := VirtualId.query?_write file .styles (some position) "css"
    (named_of_extended extended)
  exact (VirtualId.address?_of_blockQuery query).trans
    (ofText?_styleText plugin.languages (by decide) bounded)

/-! ## After a transform -/

/-- What a transform that extracts styles gave: the component that was read, its compiled
styles and template, the parts that the hook is given, the descriptor that is published, and
the positions of the plain styles. -/
structure Extraction (σ : Type) where
  descriptor : Descriptor
  read : σ
  styles : List CompiledStyle
  template : Option CompiledTemplate
  compiled : σ
  parts : AssemblyInput
  published : Descriptor
  positions : List Nat

/-- The id of the style at a position, asked for in a language. -/
def styleId (plugin : Plugin σ) (filename lang : String) (position : Nat) : String :=
  VirtualId.encode plugin.languages ⟨filename⟩ (some lang) .styles (some position)

/-- The transform in this session extracts the styles: the plain ones leave the parts of the
module for imports in the script, the others lose code and map, and all of them are loaded as
compiled. -/
structure Extraction.IsTrue (plugin : Plugin σ) (source filename : String) (session : Session σ)
    (extraction : Extraction σ) : Prop where
  parsed : plugin.parsed? source filename session.world =
    some (extraction.descriptor, extraction.read)
  compiles : alone (plugin.compile ⟨filename⟩ source extraction.descriptor) extraction.read =
    (.ok (extraction.styles, extraction.template), extraction.compiled)
  given : extraction.parts = plugin.assemblyInput ⟨filename⟩
    (scopeId ⟨filename⟩ source plugin.mode.isProduction) extraction.descriptor extraction.styles
    extraction.template
  outcome : plugin.transform source filename session =
    (let made := plugin.moduleOf ⟨filename⟩ extraction.descriptor extraction.template
      extraction.parts ⟨session.store.insert ⟨filename⟩ extraction.published, extraction.compiled⟩
    (made.1.map some, made.2))
  current : (plugin.transform source filename session).2.store.get? ⟨filename⟩ =
    some extraction.published
  writesBack : WritesBack extraction.descriptor extraction.styles extraction.published
  kept : extraction.parts.styles =
    ((extraction.descriptor.styles.zip extraction.styles).filter
      (fun pair => pair.2.isModule || pair.1.isScoped)).map
        (fun pair => { pair.2 with code := "", map := none })
  plain : ArePlain extraction.descriptor.styles extraction.styles extraction.positions
  lines : extraction.parts.script.code.toList =
    ['\n'].intercalate
      ((plugin.entryStatements ⟨filename⟩ extraction.descriptor extraction.styles ++
        extraction.positions.map (fun position =>
          "import " ++ inQuotes (plugin.styleId filename "css" position))).map String.toList)
  otherLines : ∀ line ∈ plugin.entryStatements ⟨filename⟩ extraction.descriptor extraction.styles,
    '\n' ∉ line.toList ∧ ¬ importStart <+: line.toList
  idsOneLine : ∀ position ∈ extraction.positions,
    '\n' ∉ (plugin.styleId filename "css" position).toList
  addresses : ∀ position ∈ extraction.positions, position < Address.indexBound →
    VirtualId.address? plugin.languages (plugin.styleId filename "css" position) =
      some { kind := .styles, lang := "css", index := some position }
  loads : ∀ lang position block style, lang ≠ "" →
    ¬ VirtualId.extension <:+: '.' :: lang.toList → position < Address.indexBound →
    extraction.descriptor.styles[position]? = some block →
    extraction.styles[position]? = some style →
    ∃ query, VirtualId.query? (plugin.styleId filename lang position).toList = some query ∧
      plugin.load (filename ++ "?" ++ String.ofList query)
          (plugin.transform source filename session).2 =
        (.ok (some { code := style.code, map := block.map }),
          (plugin.transform source filename session).2)

/-- The extraction behind the steps of a transform. -/
def Making.extraction (plugin : Plugin σ) (source filename : String) (making : Making σ) :
    Extraction σ :=
  { making with
    parts := plugin.assemblyInput ⟨filename⟩
      (scopeId ⟨filename⟩ source plugin.mode.isProduction) making.descriptor making.styles
      making.template
    published := plugin.recorded making.descriptor (making.styles.map CompiledStyle.code)
    positions := plainPositions (making.descriptor.styles.zip making.styles) 0 }

/-- A transform that extracts styles splits them. The script has an import for each
plain style behind its other lines, and the id in it has the address of that style. The
other styles stay in the module, without code and map. The descriptor that is published
has the compiled code of every style, and each is loaded as that code. -/
theorem transform_extracts (plugin : Plugin σ) {source filename : String} {session : Session σ}
    {output : TransformOutput} (extended : VirtualId.extension <:+ filename.toList)
    (noMark : '?' ∉ filename.toList) (oneLine : '\n' ∉ filename.toList)
    (extracting : plugin.config.extractsCss = true)
    (themeless : plugin.config.themeLoading = false)
    (succeeded : (plugin.transform source filename session).1 = .ok (some output)) :
    ∃ extraction : Extraction σ, extraction.IsTrue plugin source filename session := by
  let file : Path := ⟨filename⟩
  obtain ⟨making, isTrue, -⟩ := exists_making succeeded
  obtain ⟨accepted, readHere⟩ := accepted_of_parsed? isTrue.parsed
  obtain ⟨template, later, compiledHere⟩ := compile_of_compiledStyles? isTrue.compiledStyles?_eq
  have writesBack := writesBack_recorded extracting themeless (length_eq_of_compile compiledHere)
  refine ⟨making.extraction plugin source filename, ?_⟩
  constructor
  case parsed => exact isTrue.parsed
  case compiles => exact isTrue.compiles
  case given => rfl
  case outcome =>
    rw [transform_of_accepted accepted, transformFile_of_compiled readHere isTrue.compiles,
      finish_eq]
    rfl
  case current => exact isTrue.current
  case writesBack => exact writesBack
  case kept => exact styles_assemblyInput extracting themeless
  case plain => exact arePlain_plainPositions _ _
  case lines => exact toList_script_of_extracting extracting themeless oneLine
  case otherLines =>
    intro line member
    obtain ⟨flush, other⟩ := of_mem_entryStatements themeless oneLine line member
    exact ⟨flush.oneLine, other⟩
  case idsOneLine =>
    intro position _
    exact VirtualId.notMem_write file _ _ _ (by decide) (by decide) oneLine
  case addresses =>
    intro position _
    exact address?_styleImport plugin extended
  case loads =>
    intro lang position block style nonempty unspelled bounded present compiledHere
    exact load_of_styleCode extended noMark isTrue.current
      (writesBack.code position block style present compiledHere) bounded nonempty unspelled

/-- A component with a plain and a scoped style. -/
def scopedSource : String :=
  "<style>\na \x7b\x7d\n</style>\n<style scoped>\nb \x7b\x7d\n</style>"

/-- The scoped style of a component is published with its compiled code, and loaded as
that code. -/
theorem transform_extracts_scoped :
    let later := (verbatim.transform scopedSource "App.vue" { world := () }).2
    (∃ published, later.store.get? ⟨"App.vue"⟩ = some published ∧
        published.styles[1]?.map Block.code = some (some "\nb \x7b\x7d\n")) ∧
      verbatim.load "App.vue?vuepart=styles.1.scss" later =
        (.ok (some { code := "\nb \x7b\x7d\n", map := none }), later) := by
  intro later
  let outer : Block := { tag := "style", content := "\na \x7b\x7d\n" }
  let inner : Block :=
    { tag := "style", content := "\nb \x7b\x7d\n", isScoped := true
      attributes := Table.ofList [("scoped", .flag true)] }
  let component : Descriptor := { styles := [outer, inner] }
  let compiled : List CompiledStyle := [{ code := outer.content }, { code := inner.content }]
  let session : Session Unit := { world := () }
  have parsedHere : verbatim.parsed? scopedSource "App.vue" session.world =
      some (component, ()) := by
    decide +kernel
  have compiledHere : verbatim.compiledStyles? scopedSource "App.vue" component () =
      some compiled := by
    decide +kernel
  obtain ⟨⟨output, succeeded, -⟩, -⟩ :=
    transform_of_compiledStyles?_eq_some parsedHere compiledHere
  obtain ⟨extraction, isTrue⟩ :=
    transform_extracts verbatim ⟨"App".toList, by decide⟩ (by decide) (by decide) rfl rfl succeeded
  obtain ⟨isComponent, isRead⟩ := Prod.mk.inj (Option.some.inj (parsedHere.symm.trans isTrue.parsed))
  unfold compiledStyles? at compiledHere
  rw [isRead, isComponent, isTrue.compiles] at compiledHere
  have isCompiled : extraction.styles = compiled := Option.some.inj compiledHere
  have innerHere : extraction.descriptor.styles[1]? = some inner := by
    rw [← isComponent]
    rfl
  have compiledInner : extraction.styles[1]? = some { code := inner.content } := by
    rw [isCompiled]
    rfl
  refine ⟨⟨extraction.published, isTrue.current, ?_⟩, ?_⟩
  · rw [isTrue.writesBack.code 1 inner _ innerHere compiledInner]
    rfl
  · obtain ⟨query, isQuery, loaded⟩ :=
      isTrue.loads "scss" 1 inner _ (by decide) (by decide) (by decide) innerHere compiledInner
    obtain rfl : query = "vuepart=styles.1.scss".toList :=
      Option.some.inj (isQuery.symm.trans (by decide +kernel))
    exact loaded

end VirtualBlocks.Plugin
