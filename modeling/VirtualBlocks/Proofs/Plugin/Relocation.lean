import VirtualBlocks.Assembly
import VirtualBlocks.Proofs.Markup.Component
import VirtualBlocks.Proofs.Path.LastSegment
import VirtualBlocks.Proofs.Plugin.Served
import VirtualBlocks.Proofs.VirtualId.Owner

/-!
Contract: a production build of a component does not show the directory that the
component stands in.

Owns:
- files that differ in their directory only, and the ids of their blocks;
- two runs of a step that go the same way, up to the file that an error names,
  and which steps of a transform have two such runs;
- that a transform under two such files gives one component module, or one error.

What may pass the directory on is set aside: compilers that look at the file name
or at the map of a block. Headers and the hook may be any actions, for they are
told nothing about the file but what ends up in the module.
-/

namespace VirtualBlocks

/-! ## Files in two directories -/

/-- Two files of the same name. Neither has a query or a separator of another
platform in its path. -/
structure SameName (left right : Path) : Prop where
  isName : Path.IsName left.lastSegment
  same : right.lastSegment = left.lastSegment
  noMark : '?' ∉ left.text.toList ∧ '?' ∉ right.text.toList
  noBackslash : '\\' ∉ left.text.toList ∧ '\\' ∉ right.text.toList

namespace VirtualId

theorem baseName_eq_lastSegment {file : Path} (isName : Path.IsName file.lastSegment)
    (noBackslash : '\\' ∉ file.text.toList) :
    baseName file.text.toList = file.lastSegment.toList := by
  have plain : ∀ c ∈ file.lastSegment.toList, c ∈ file.text.toList →
      isSeparator c = false := by
    intro c member inText
    have notSlash : c ≠ '/' := fun slash => isName.single (slash ▸ member)
    have notBackslash : c ≠ '\\' := fun backslash => noBackslash (backslash ▸ inText)
    simp [isSeparator, notSlash, notBackslash]
  rcases file.eq_lastSegment_or with whole | ⟨folder, whole⟩
  · rw [whole] at plain ⊢
    exact baseName_of_plain (fun c member => plain c member member)
  · rw [whole] at plain ⊢
    refine baseName_append_cons rfl folder (by simpa using isName.nonempty) ?_
    intro c member
    exact plain c member (List.mem_append_right _ (List.mem_cons_of_mem _ member))

end VirtualId

namespace SameName

variable {left right : Path}

theorem write_eq (sameName : SameName left right) (kind : BlockKind) (index : Option Nat)
    (lang : String) :
    VirtualId.write left kind index lang = VirtualId.write right kind index lang := by
  have rightIsName : Path.IsName right.lastSegment := sameName.same ▸ sameName.isName
  apply String.toList_inj.1
  rw [VirtualId.toList_write, VirtualId.toList_write,
    VirtualId.blockQuery_of_noMark sameName.noMark.1,
    VirtualId.blockQuery_of_noMark sameName.noMark.2,
    VirtualId.withoutQuery_of_none (VirtualId.query?_eq_none_of_notMem sameName.noMark.1),
    VirtualId.withoutQuery_of_none (VirtualId.query?_eq_none_of_notMem sameName.noMark.2),
    VirtualId.baseName_eq_lastSegment sameName.isName sameName.noBackslash.1,
    VirtualId.baseName_eq_lastSegment rightIsName sameName.noBackslash.2, sameName.same]

theorem shownName_eq (sameName : SameName left right) :
    left.shownName true = right.shownName true := by
  have rightIsName : Path.IsName right.lastSegment := sameName.same ▸ sameName.isName
  unfold Path.shownName
  rw [Path.fileName?_of_isName sameName.isName, Path.fileName?_of_isName rightIsName,
    sameName.same]
  rfl

theorem scopeId_eq (sameName : SameName left right) (source : String) :
    scopeId left source true = scopeId right source true := by
  unfold scopeId
  rw [sameName.shownName_eq]

end SameName

/-- The error with this file in the place of the one that it names. -/
def PluginError.inFile (file : Path) : PluginError → PluginError
  | .notYetProcessed _ => .notYetProcessed file
  | .blockNotFound _ kind index => .blockNotFound file kind index
  | .parse _ error => .parse file error
  | .styleCompile _ compiler errors => .styleCompile file compiler errors
  | .templateCompile _ compiler errors => .templateCompile file compiler errors
  | .unresolved specifier directory => .unresolved specifier directory
  | .config reason => .config reason
  | .files error => .files error

/-- Compilers to which the file of a block and its source map are of no
consequence. -/
structure Collaborators.IgnoreFile {σ : Type} (collaborators : Collaborators σ) : Prop where
  style : ∀ left right scope block map,
    collaborators.compileStyle left scope { block with map } =
      collaborators.compileStyle right scope block
  template : ∀ options left right block map,
    collaborators.compileTemplate options left { block with map } =
      collaborators.compileTemplate options right block

namespace Plugin

variable {σ α β γ δ : Type}

/-! ## Two runs that go the same way -/

/-- Two runs that both succeed, with related results, or both fail, with errors
that differ in the file at most. -/
inductive SameOutcome (file : Path) (related : α → β → Prop) :
    Except PluginError α → Except PluginError β → Prop
  | ok {left : α} {right : β} (results : related left right) :
      SameOutcome file related (.ok left) (.ok right)
  | error (error : PluginError) :
      SameOutcome file related (.error error) (.error (error.inFile file))

/-- Two steps that go the same way from one state of the collaborators to
another, whatever the two stores. -/
def Agree (file : Path) (related : α → β → Prop) (left : PluginM σ α)
    (right : PluginM σ β) : Prop :=
  ∀ leftSession rightSession, leftSession.world = rightSession.world →
    SameOutcome file related (left leftSession).1 (right rightSession).1 ∧
      (left leftSession).2.world = (right rightSession).2.world

section Agree

variable {file : Path}

theorem Agree.pure {related : α → β → Prop} {left : α} {right : β}
    (results : related left right) :
    Agree file related (Pure.pure left : PluginM σ α) (Pure.pure right) :=
  fun _ _ sameWorld => ⟨.ok results, sameWorld⟩

theorem Agree.throw {related : α → β → Prop} {left right : PluginError}
    (same : right = left.inFile file) :
    Agree file related (MonadExcept.throw left : PluginM σ α) (MonadExcept.throw right) := by
  intro leftSession rightSession sameWorld
  rw [same]
  exact ⟨.error left, sameWorld⟩

theorem Agree.consult {left right : StateM σ α} (same : left = right) :
    Agree file Eq (Plugin.consult left) (Plugin.consult right) := by
  intro leftSession rightSession sameWorld
  unfold Plugin.consult
  rw [same, sameWorld]
  exact ⟨.ok rfl, rfl⟩

theorem Agree.publish (left right : Path) (leftDescriptor rightDescriptor : Descriptor) :
    Agree file (fun _ _ => True) (Plugin.publish left leftDescriptor : PluginM σ Unit)
      (Plugin.publish right rightDescriptor) :=
  fun _ _ sameWorld => ⟨.ok trivial, sameWorld⟩

theorem Agree.bind {first : α → β → Prop} {second : γ → δ → Prop} {left : PluginM σ α}
    {right : PluginM σ β} {leftNext : α → PluginM σ γ} {rightNext : β → PluginM σ δ}
    (start : Agree file first left right)
    (next : ∀ leftValue rightValue, first leftValue rightValue →
      Agree file second (leftNext leftValue) (rightNext rightValue)) :
    Agree file second (left >>= leftNext) (right >>= rightNext) := by
  intro leftSession rightSession sameWorld
  obtain ⟨outcome, worlds⟩ := start leftSession rightSession sameWorld
  rcases leftRun : left leftSession with ⟨leftOutcome, leftLater⟩
  rcases rightRun : right rightSession with ⟨rightOutcome, rightLater⟩
  rw [leftRun, rightRun] at outcome worlds
  cases outcome with
  | ok results =>
      rw [bind_of_ok leftRun, bind_of_ok rightRun]
      exact next _ _ results leftLater rightLater worlds
  | error error =>
      rw [bind_of_error leftRun, bind_of_error rightRun]
      exact ⟨.error error, worlds⟩

end Agree

/-! ## Reproducible builds -/

/-- A plugin that builds for production with the built-in reader and the built-in
assembly, and whose compilers are not told where a component stands. -/
structure IsReproducible (plugin : Plugin σ) : Prop where
  production : plugin.mode.isProduction = true
  reader : plugin.collaborators.parse = fun options file source =>
    pure ((Descriptor.ofSource options file source).mapError Markup.SplitError.report)
  assembly : plugin.collaborators.assemble = fun _ input options =>
    pure (Assembly.assemble input options)
  compilers : plugin.collaborators.IgnoreFile

/-- Two blocks that differ in their source maps at most. -/
def SameBlock (left right : Block) : Prop :=
  left.withoutMap = right.withoutMap

theorem SameBlock.exists_map {left right : Block} (same : SameBlock left right) :
    ∃ map, left = { right with map } := by
  refine ⟨left.map, ?_⟩
  have rebuilt := congrArg (fun block : Block => { block with map := left.map }) same
  exact rebuilt

/-- Two descriptors that differ in their source maps at most. -/
def SameComponent (left right : Descriptor) : Prop :=
  left.withoutMaps = right.withoutMaps

theorem forall₂_of_map_withoutMap {left right : List Block}
    (same : left.map Block.withoutMap = right.map Block.withoutMap) :
    List.Forall₂ SameBlock left right := by
  rw [← List.forall₂_eq_eq_eq, List.forall₂_map_left_iff, List.forall₂_map_right_iff] at same
  exact same

theorem optionRel_of_map_withoutMap {left right : Option Block}
    (same : left.map Block.withoutMap = right.map Block.withoutMap) :
    Option.Rel SameBlock left right := by
  cases left with
  | none =>
      cases right with
      | none => exact .none
      | some block => cases same
  | some leftBlock =>
      cases right with
      | none => cases same
      | some rightBlock => exact .some (Option.some.inj same)

/-! ## What a module says about its file -/

section Parts

variable (plugin : Plugin σ) (file : Path)

theorem entryScript_withoutMaps (descriptor : Descriptor) (styles : List CompiledStyle) :
    plugin.entryScript file descriptor.withoutMaps styles =
      plugin.entryScript file descriptor styles := by
  unfold entryScript Descriptor.withoutMaps
  cases descriptor.script with
  | none => rfl
  | some script => rfl

/-- A style and its compiled form, the style without its source map. -/
def unmapped (pair : Block × CompiledStyle) : Block × CompiledStyle :=
  (pair.1.withoutMap, pair.2)

theorem styleImports_unmapped (index : Nat) (styles : List (Block × CompiledStyle)) :
    plugin.styleImports file index (styles.map unmapped) =
      plugin.styleImports file index styles := by
  induction styles generalizing index with
  | nil => rfl
  | cons first rest inductionHypothesis =>
      rw [List.map_cons]
      unfold styleImports
      rw [inductionHypothesis]
      rfl

theorem keptStyles_unmapped (styles : List (Block × CompiledStyle)) :
    keptStyles (styles.map unmapped) = keptStyles styles := by
  unfold keptStyles
  rw [List.filter_map, List.map_map]
  rfl

theorem assemblyInput_withoutMaps (scope : String) (descriptor : Descriptor)
    (styles : List CompiledStyle) (template : Option CompiledTemplate) :
    plugin.assemblyInput file scope descriptor.withoutMaps styles template =
      plugin.assemblyInput file scope descriptor styles template := by
  have paired : descriptor.withoutMaps.styles.zip styles =
      (descriptor.styles.zip styles).map unmapped := List.zip_map_left
  unfold assemblyInput
  dsimp only
  rw [paired, styleImports_unmapped, keptStyles_unmapped, entryScript_withoutMaps]

theorem customExports_withoutMaps (index : Nat) (blocks : List Block) :
    plugin.customExports file index (blocks.map Block.withoutMap) =
      plugin.customExports file index blocks := by
  induction blocks generalizing index with
  | nil => rfl
  | cons block rest inductionHypothesis =>
      rw [List.map_cons]
      unfold customExports
      rw [inductionHypothesis]
      rfl

variable {plugin} {left right : Path}

theorem styleImport_eq (sameName : SameName left right) (index : Nat) :
    plugin.styleImport left index = plugin.styleImport right index := by
  unfold styleImport VirtualId.encode
  rw [sameName.write_eq]

theorem styleImports_eq (sameName : SameName left right) (index : Nat)
    (styles : List (Block × CompiledStyle)) :
    plugin.styleImports left index styles = plugin.styleImports right index styles := by
  induction styles generalizing index with
  | nil => rfl
  | cons first rest inductionHypothesis =>
      unfold styleImports
      rw [inductionHypothesis, styleImport_eq sameName]

theorem entryScript_eq (sameName : SameName left right)
    (production : plugin.mode.isProduction = true) (descriptor : Descriptor)
    (styles : List CompiledStyle) :
    plugin.entryScript left descriptor styles = plugin.entryScript right descriptor styles := by
  unfold entryScript
  cases descriptor.script with
  | none => rfl
  | some script =>
      dsimp only
      unfold entryLines VirtualId.ofBlock
      rw [sameName.write_eq, production, sameName.shownName_eq]

theorem customExports_eq (sameName : SameName left right) (index : Nat) (blocks : List Block) :
    plugin.customExports left index blocks = plugin.customExports right index blocks := by
  induction blocks generalizing index with
  | nil => rfl
  | cons block rest inductionHypothesis =>
      unfold customExports customExport VirtualId.ofBlock
      rw [inductionHypothesis, sameName.write_eq]

/-- The parts of a module are the same from both directories. -/
theorem assemblyInput_eq (sameName : SameName left right)
    (production : plugin.mode.isProduction = true) {leftDescriptor rightDescriptor : Descriptor}
    (same : SameComponent leftDescriptor rightDescriptor) (scope : String)
    (styles : List CompiledStyle) (template : Option CompiledTemplate) :
    plugin.assemblyInput left scope leftDescriptor styles template =
      plugin.assemblyInput right scope rightDescriptor styles template := by
  rw [← assemblyInput_withoutMaps, ← assemblyInput_withoutMaps plugin right, same]
  unfold assemblyInput
  dsimp only
  rw [entryScript_eq sameName production, styleImports_eq sameName]

theorem exportsOf_eq (sameName : SameName left right)
    {leftDescriptor rightDescriptor : Descriptor}
    (same : SameComponent leftDescriptor rightDescriptor) :
    plugin.exportsOf left leftDescriptor = plugin.exportsOf right rightDescriptor := by
  have blocks : leftDescriptor.customBlocks.map Block.withoutMap =
      rightDescriptor.customBlocks.map Block.withoutMap :=
    congrArg Descriptor.customBlocks same
  unfold exportsOf
  rw [← customExports_withoutMaps, ← customExports_withoutMaps plugin right, blocks,
    customExports_eq sameName]

end Parts

/-! ## The steps of a transform -/

section Steps

variable {plugin : Plugin σ} {left right : Path}

theorem agree_readComponent (reproducible : plugin.IsReproducible) (source : String) :
    Agree right SameComponent (plugin.readComponent left source)
      (plugin.readComponent right source) := by
  have same := (Descriptor.ofSource_withoutMaps plugin.parseOptions left source left).trans
    (Descriptor.ofSource_withoutMaps plugin.parseOptions right source left).symm
  unfold readComponent
  rw [reproducible.reader]
  dsimp only
  generalize Descriptor.ofSource plugin.parseOptions left source = leftRead at same ⊢
  generalize Descriptor.ofSource plugin.parseOptions right source = rightRead at same ⊢
  cases leftRead with
  | error leftError =>
      cases rightRead with
      | error rightError =>
          obtain rfl := Except.error.inj same
          exact fun _ _ sameWorld => ⟨.error (.parse left leftError.report), sameWorld⟩
      | ok rightDescriptor => cases same
  | ok leftDescriptor =>
      cases rightRead with
      | error rightError => cases same
      | ok rightDescriptor => exact fun _ _ sameWorld => ⟨.ok (Except.ok.inj same), sameWorld⟩

theorem agree_withHeader (lang text : String) :
    Agree right Eq (plugin.withHeader lang text) (plugin.withHeader lang text) := by
  unfold withHeader
  cases plugin.headers.get? lang with
  | none => exact .pure rfl
  | some header =>
      refine .bind (.consult rfl) ?_
      rintro leftText rightText rfl
      exact .pure rfl

theorem agree_styleInput {leftStyle rightStyle : Block} (same : SameBlock leftStyle rightStyle) :
    Agree right SameBlock (plugin.styleInput leftStyle) (plugin.styleInput rightStyle) := by
  obtain ⟨map, rfl⟩ := same.exists_map
  unfold styleInput
  dsimp only
  split
  · exact .pure same
  · refine .bind (agree_withHeader _ _) ?_
    rintro leftContent rightContent rfl
    exact .pure rfl

theorem agree_compileStyle (reproducible : plugin.IsReproducible) (scope : String)
    {leftStyle rightStyle : Block} (same : SameBlock leftStyle rightStyle) :
    Agree right Eq (plugin.compileStyle left scope leftStyle)
      (plugin.compileStyle right scope rightStyle) := by
  unfold compileStyle
  refine .bind (agree_styleInput same) (fun leftInput rightInput sameInput => ?_)
  obtain ⟨map, rfl⟩ := sameInput.exists_map
  refine .bind (.consult (reproducible.compilers.style left right scope rightInput map)) ?_
  rintro leftCompiled rightCompiled rfl
  split
  · exact .pure rfl
  · exact .throw rfl

theorem agree_compileStyles (reproducible : plugin.IsReproducible) (scope : String)
    {leftStyles rightStyles : List Block}
    (same : List.Forall₂ SameBlock leftStyles rightStyles) :
    Agree right Eq (plugin.compileStyles left scope leftStyles)
      (plugin.compileStyles right scope rightStyles) := by
  induction same with
  | nil => exact .pure rfl
  | cons sameStyle _ inductionHypothesis =>
      refine .bind (agree_compileStyle reproducible scope sameStyle) ?_
      rintro leftCompiled rightCompiled rfl
      refine .bind inductionHypothesis ?_
      rintro leftOthers rightOthers rfl
      exact .pure rfl

theorem agree_compileTemplate? (reproducible : plugin.IsReproducible)
    {leftTemplate rightTemplate : Option Block}
    (same : Option.Rel SameBlock leftTemplate rightTemplate) :
    Agree right Eq (plugin.compileTemplate? left leftTemplate)
      (plugin.compileTemplate? right rightTemplate) := by
  cases same with
  | none => exact .pure rfl
  | @some leftBlock rightBlock sameBlock =>
      obtain ⟨map, rfl⟩ := sameBlock.exists_map
      have compiled : Agree right Eq (plugin.compileTemplate left { rightBlock with map })
          (plugin.compileTemplate right rightBlock) := by
        unfold compileTemplate
        refine .bind (.consult (reproducible.compilers.template _ left right rightBlock map)) ?_
        rintro leftCompiled rightCompiled rfl
        split
        · exact .pure rfl
        · exact .throw rfl
      refine .bind compiled ?_
      rintro leftCompiled rightCompiled rfl
      exact .pure rfl

theorem agree_runBeforeAssembly (input : AssemblyInput) :
    Agree right Eq (plugin.runBeforeAssembly input) (plugin.runBeforeAssembly input) := by
  unfold runBeforeAssembly
  cases plugin.beforeAssembly with
  | none => exact .pure rfl
  | some hook => exact .consult rfl

theorem agree_transformFile (reproducible : plugin.IsReproducible)
    (sameName : SameName left right) (source : String) :
    Agree right Eq (plugin.transformFile left source) (plugin.transformFile right source) := by
  have production := reproducible.production
  rw [transformFile_eq, transformFile_eq]
  refine .bind (agree_readComponent reproducible source) (fun leftRead rightRead same => ?_)
  refine .bind (.publish left right leftRead rightRead) (fun _ _ _ => ?_)
  have compiled : Agree right Eq (plugin.compile left source leftRead)
      (plugin.compile right source rightRead) := by
    unfold compile
    dsimp only
    rw [production, sameName.scopeId_eq]
    refine .bind (agree_compileStyles reproducible _
      (forall₂_of_map_withoutMap (congrArg Descriptor.styles same))) ?_
    rintro leftStyles rightStyles rfl
    refine .bind (agree_compileTemplate? reproducible
      (optionRel_of_map_withoutMap (congrArg Descriptor.template same))) ?_
    rintro leftTemplate rightTemplate rfl
    exact .pure rfl
  refine .bind compiled ?_
  rintro ⟨styles, template⟩ _ rfl
  have finished : Agree right Eq (plugin.finish left source leftRead styles template)
      (plugin.finish right source rightRead styles template) := by
    unfold finish
    dsimp only
    rw [production, sameName.scopeId_eq, assemblyInput_eq sameName production same,
      reproducible.assembly]
    refine .bind (agree_runBeforeAssembly _) ?_
    rintro leftInput rightInput rfl
    refine .bind (.consult rfl) ?_
    rintro leftModule rightModule rfl
    have exports : plugin.exportsOf left leftRead = plugin.exportsOf right rightRead :=
      exportsOf_eq sameName same
    unfold exportsOf at exports
    rw [exports]
    exact .pure rfl
  dsimp only
  split
  · exact .bind (.publish left right _ _) (fun _ _ _ => finished)
  · exact finished

end Steps

/-- A production build gives the same module for two files that differ in their
directory only, whatever the two stores hold: both transforms succeed with the
same code, map and warnings, or both fail with errors that differ in the file
that they name. -/
theorem transform_relocated (plugin : Plugin σ) (reproducible : plugin.IsReproducible)
    {left right : String} (sameName : SameName ⟨left⟩ ⟨right⟩)
    (leftAccepted : plugin.filter.accepts left = true)
    (rightAccepted : plugin.filter.accepts right = true) (source : String)
    {leftSession rightSession : Session σ} (sameWorld : leftSession.world = rightSession.world) :
    (∃ output, (plugin.transform source left leftSession).1 = .ok (some output) ∧
        (plugin.transform source right rightSession).1 = .ok (some output)) ∨
      ∃ error, (plugin.transform source left leftSession).1 = .error error ∧
        (plugin.transform source right rightSession).1 = .error (error.inFile ⟨right⟩) := by
  obtain ⟨outcome, -⟩ := agree_transformFile reproducible sameName source leftSession
    rightSession sameWorld
  rw [transform_of_accepted leftAccepted, transform_of_accepted rightAccepted]
  generalize (plugin.transformFile ⟨left⟩ source leftSession).1 = leftOutcome at outcome ⊢
  generalize (plugin.transformFile ⟨right⟩ source rightSession).1 = rightOutcome at outcome ⊢
  cases outcome with
  | ok results =>
      obtain rfl := results
      exact .inl ⟨_, rfl, rfl⟩
  | error error => exact .inr ⟨error, rfl, rfl⟩

/-- A plugin that builds for production, names the file and leaves every block as
it is. -/
def verbatimProduction : Plugin Unit :=
  { verbatim with
    config := { css := false, exposeFilename := true }
    mode := { isProduction := true }
    collaborators :=
      { verbatimCollaborators with
        assemble := fun _ input options => pure (Assembly.assemble input options) } }

/-- An absolute file and a relative one of the same name. -/
theorem transform_relocated_verbatim :
    let left := (verbatimProduction.transform exampleSource "/home/a/App.vue" { world := () }).1
    let right := (verbatimProduction.transform exampleSource "./b/App.vue" { world := () }).1
    ∃ output, left = .ok (some output) ∧ right = .ok (some output) := by
  intro left right
  have reproducible : verbatimProduction.IsReproducible :=
    { production := rfl
      reader := rfl
      assembly := rfl
      compilers :=
        { style := fun left right scope block map => rfl
          template := fun options left right block map => rfl } }
  have sameName : SameName ⟨"/home/a/App.vue"⟩ ⟨"./b/App.vue"⟩ :=
    { isName := Path.isName_of_length (Path.slash_notMem_lastSegment _) (by decide +kernel)
      same := by decide +kernel
      noMark := ⟨by decide, by decide⟩
      noBackslash := ⟨by decide, by decide⟩ }
  rcases transform_relocated verbatimProduction reproducible sameName (by decide +kernel)
      (by decide +kernel) exampleSource rfl with succeeded | ⟨error, failed, -⟩
  · exact succeeded
  · have built : left.toBool = true := by decide +kernel
    have unbuilt : left = .error error := failed
    rw [unbuilt] at built
    cases built

end Plugin

end VirtualBlocks
