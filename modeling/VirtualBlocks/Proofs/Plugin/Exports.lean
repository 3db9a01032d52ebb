import VirtualBlocks.Proofs.Markup.Layout
import VirtualBlocks.Proofs.Plugin.Making
import VirtualBlocks.Proofs.Plugin.Served
import VirtualBlocks.Proofs.TagFilter

/-!
Contract: the custom blocks that a component module exports.

Owns:
- the plugin of a setup, and the list of tags that is in effect for it;
- the exports behind the assembled code: one for each admitted block, with the position of
  the block among all custom blocks.

Does not own: what a list of tags decides (`Proofs.TagFilter`), the steps of a transform
that gave a module (`Proofs.Plugin.Making`), and whether an exported block is served
(`Proofs.Plugin.Served`).
-/

namespace VirtualBlocks

theorem IdFilter.ofPatterns_nil : ofPatterns [] [] = .ok builtin := by
  have read : (ofPatterns [] []).isOk = true := by decide +kernel
  unfold builtin
  cases patterns : ofPatterns [] [] with
  | ok filter => rfl
  | error error =>
      rw [patterns] at read
      contradiction

namespace Plugin

open Descriptor

variable {σ : Type}

/-! ## The plugin of a setup -/

/-- The setting that is chosen by an option, as a function or as data. -/
def explicitSetting (setup : Setup σ) : Option TagSetting :=
  setup.customBlocks.or (setup.config.customBlocks.map .tags)

/-- The list of tags that is in effect for a setup. -/
def ListsTags (setup : Setup σ) : List String → Prop :=
  TagSetting.InEffect (explicitSetting setup) setup.config.allowedBlocks
    setup.config.deniedBlocks

section Built

variable {setup : Setup σ} {collaborators : Collaborators σ} {plugin : Plugin σ}

/-- A plugin is made of its setup and of the filter for its patterns. -/
theorem exists_filter_of_ofSetup (built : ofSetup setup collaborators = .ok plugin) :
    ∃ filter,
      IdFilter.ofPatterns setup.config.includePatterns setup.config.excludes = .ok filter ∧
      plugin =
        { config := setup.config
          mode := setup.mode.getD (BuildMode.detect setup.config setup.environment)
          languages := setup.config.languages
          filter
          customBlocks := tagSettingOf setup
          headers := headersOf setup
          beforeAssembly := setup.beforeAssembly
          workingDirectory := setup.workingDirectory
          collaborators } := by
  unfold ofSetup at built
  dsimp only at built
  split at built
  · cases built
  · rename_i filter read
    exact ⟨filter, read, (Except.ok.inj built).symm⟩

theorem exportsTag_of_ofSetup (built : ofSetup setup collaborators = .ok plugin) :
    plugin.exportsTag = TagSetting.allows (tagSettingOf setup) := by
  obtain ⟨filter, -, rfl⟩ := exists_filter_of_ofSetup built
  rfl

theorem exportsTag_of_listsTags (built : ofSetup setup collaborators = .ok plugin)
    {entries : List String} (listed : ListsTags setup entries) :
    plugin.exportsTag = TagSetting.listAllows entries := by
  have setting : tagSettingOf setup = some (.tags entries) := listed.merge_eq
  rw [exportsTag_of_ofSetup built, setting]
  rfl

theorem exportsTag_of_explicit (built : ofSetup setup collaborators = .ok plugin)
    (explicit : (explicitSetting setup).isSome = true) :
    plugin.exportsTag = TagSetting.allows (explicitSetting setup) := by
  have setting : tagSettingOf setup = explicitSetting setup :=
    TagSetting.merge_of_isSome explicit
  rw [exportsTag_of_ofSetup built, setting]

theorem exportsTag_of_nothing (built : ofSetup setup collaborators = .ok plugin)
    (implicit : explicitSetting setup = none) (notAllowed : setup.config.allowedBlocks = none)
    (notDenied : setup.config.deniedBlocks = none) (tag : String) :
    plugin.exportsTag tag = false := by
  have setting : tagSettingOf setup =
      (TagSetting.merge (explicitSetting setup) setup.config.allowedBlocks
        setup.config.deniedBlocks).1 := rfl
  rw [exportsTag_of_ofSetup built, setting, implicit, notAllowed, notDenied,
    TagSetting.merge_none]
  rfl

end Built

/-! ## The exports -/

/-- The admitted custom blocks, each with its position among all of them. -/
def exported (plugin : Plugin σ) (blocks : List Block) (first : Nat) : List (Block × Nat) :=
  (blocks.zipIdx first).filter (fun entry => plugin.exportsTag entry.1.tag)

theorem customExports_eq_map (plugin : Plugin σ) (file : Path) (first : Nat)
    (blocks : List Block) :
    plugin.customExports file first blocks =
      (plugin.exported blocks first).map
        (fun entry => plugin.customExport file entry.2 entry.1) := by
  induction blocks generalizing first with
  | nil => rfl
  | cons block rest inductionHypothesis =>
      unfold exported at inductionHypothesis ⊢
      rw [customExports, inductionHypothesis, List.zipIdx_cons, List.filter_cons]
      dsimp only
      split <;> rfl

theorem exportsOf_eq_join (plugin : Plugin σ) (file : Path) (descriptor : Descriptor) :
    plugin.exportsOf file descriptor =
      String.join ((plugin.exported descriptor.customBlocks 0).map (fun entry =>
        "\nexport * from '" ++
          VirtualId.ofBlock plugin.languages file entry.1 .customBlocks (some entry.2) ++
            "'")) := by
  have line (entry : Block × Nat) : "\n" ++ plugin.customExport file entry.2 entry.1 =
      "\nexport * from '" ++
        VirtualId.ofBlock plugin.languages file entry.1 .customBlocks (some entry.2) ++ "'" := by
    apply String.toList_inj.1
    simp [customExport, inQuotes]
  unfold exportsOf
  simp only [customExports_eq_map, List.map_map, Function.comp_def, line]

/-- The custom blocks of a source are the blocks of the elements that are neither template
nor script nor style, in the order in which these start. -/
theorem customBlocks_of_ofSource {options : ParseOptions} {file : Path} {source : String}
    {descriptor : Descriptor} (read : ofSource options file source = .ok descriptor) :
    let blockOf := fun element : Markup.Element => element.mappedBlock options file source
    let elements := (Markup.elementsOf source).elements
    descriptor.customBlocks =
        (elements.map blockOf).filter
          (fun block => block.tag ∉ ["template", "script", "style"]) ∧
      ListsInOrder blockOf elements descriptor.customBlocks := by
  intro blockOf elements
  have laidOut := Markup.readElements_laidOut (List.suffix_refl source.toList)
  obtain ⟨-, -, rfl⟩ := (ofSource_eq_ok_iff options file source descriptor).1 read
  exact ⟨rfl, listsInOrder_filter laidOut.liesIn laidOut.ordered blockOf _⟩

/-- A plugin exports the custom blocks that its setup admits. A list of tags decides by its
entries alone, an explicit setting makes the deprecated lists irrelevant, and without any
setting nothing is exported. The code of every module is the assembled code with one line
for each admitted block behind it, in order, and the id in it has the position of the block
among all custom blocks. -/
theorem customBlocks_exported {setup : Setup σ} {collaborators : Collaborators σ}
    {plugin : Plugin σ} (built : ofSetup setup collaborators = .ok plugin) :
    (∀ entries, ListsTags setup entries → ∀ tag, tag.toList.head? ≠ some '!' →
      (plugin.exportsTag tag = true ↔
        tag ∈ entries ∨ ("!" ++ tag ∉ entries ∧ "!*" ∉ entries ∧ "*" ∈ entries))) ∧
    (∀ (other : Setup σ) (others : Collaborators σ) (otherPlugin : Plugin σ),
      ofSetup other others = .ok otherPlugin →
        (∀ entries otherEntries, ListsTags setup entries → ListsTags other otherEntries →
          (∀ entry, entry ∈ entries ↔ entry ∈ otherEntries) →
          plugin.exportsTag = otherPlugin.exportsTag) ∧
        ((explicitSetting setup).isSome = true → explicitSetting other = explicitSetting setup →
          plugin.exportsTag = otherPlugin.exportsTag)) ∧
    (explicitSetting setup = none → setup.config.allowedBlocks = none →
      setup.config.deniedBlocks = none → ∀ tag, plugin.exportsTag tag = false) ∧
    ∀ source filename session output,
      (plugin.transform source filename session).1 = .ok (some output) →
      ∃ making : Making σ,
        making.IsTrue plugin source filename session.world
          (plugin.transform source filename session).2.world ∧
        output.code = making.assembled.code ++
          String.join (((making.descriptor.customBlocks.zipIdx).filter
            (fun entry => plugin.exportsTag entry.1.tag)).map (fun entry =>
              "\nexport * from '" ++
                VirtualId.ofBlock setup.config.languages ⟨filename⟩ entry.1 .customBlocks
                  (some entry.2) ++ "'")) ∧
        (collaborators.parse = builtinReader →
          let blockOf := fun element : Markup.Element =>
            element.mappedBlock plugin.parseOptions ⟨filename⟩ source
          let elements := (Markup.elementsOf source).elements
          making.descriptor.customBlocks =
              (elements.map blockOf).filter
                (fun block => block.tag ∉ ["template", "script", "style"]) ∧
            ListsInOrder blockOf elements making.descriptor.customBlocks) := by
  obtain ⟨sameLanguages, sameCollaborators⟩ : plugin.languages = setup.config.languages ∧
      plugin.collaborators = collaborators := by
    obtain ⟨filter, -, rfl⟩ := exists_filter_of_ofSetup built
    exact ⟨rfl, rfl⟩
  refine ⟨?_, fun other others otherPlugin otherBuilt => ⟨?_, ?_⟩, exportsTag_of_nothing built, ?_⟩
  · intro entries listed tag plain
    rw [exportsTag_of_listsTags built listed]
    exact TagSetting.listAllows_iff_admits entries plain
  · intro entries otherEntries listed otherListed same
    rw [exportsTag_of_listsTags built listed, exportsTag_of_listsTags otherBuilt otherListed]
    exact TagSetting.listAllows_congr same
  · intro explicit same
    rw [exportsTag_of_explicit built explicit,
      exportsTag_of_explicit otherBuilt (by rw [same]; exact explicit), same]
  · intro source filename session output succeeded
    obtain ⟨making, isTrue, code⟩ := exists_making succeeded
    refine ⟨making, isTrue, ?_, ?_⟩
    · rw [code, exportsOf_eq_join, sameLanguages]
      rfl
    · intro reader
      rw [← sameCollaborators] at reader
      exact customBlocks_of_ofSource (split_of_parsed? reader isTrue.parsed)

/-- A setup with nothing but the two deprecated lists. -/
def deprecatedSetup : Setup Unit where
  config := { deniedBlocks := some ["i18n"], allowedBlocks := some ["docs", "*"], needMap := false }

/-- The plugin of that setup. -/
def deprecating : Plugin Unit where
  config := deprecatedSetup.config
  mode := {}
  languages := deprecatedSetup.config.languages
  filter := .builtin
  customBlocks := some (.tags ["!i18n", "docs", "*"])
  headers := ∅
  beforeAssembly := none
  workingDirectory := ⟨"."⟩
  collaborators := verbatimCollaborators

theorem ofSetup_deprecatedSetup :
    ofSetup deprecatedSetup verbatimCollaborators = .ok deprecating := by
  have read : IdFilter.ofPatterns deprecatedSetup.config.includePatterns
      deprecatedSetup.config.excludes = .ok .builtin := IdFilter.ofPatterns_nil
  unfold ofSetup
  dsimp only
  rw [read]
  rfl

/-- Of two custom blocks the second one is exported, under its own position. -/
theorem customBlocks_exported_deprecated :
    ∃ output assembled,
      (deprecating.transform "<i18n>en</i18n>\n<docs>hi</docs>" "App.vue" { world := () }).1 =
        .ok (some output) ∧
      output.code = assembled ++ "\nexport * from 'App.vue?vuepart=customBlocks.1.docs'" := by
  let source := "<i18n>en</i18n>\n<docs>hi</docs>"
  let session : Session Unit := { world := () }
  let component : Descriptor :=
    { customBlocks := [{ tag := "i18n", content := "en" }, { tag := "docs", content := "hi" }] }
  have parsedHere : deprecating.parsed? source "App.vue" session.world = some (component, ()) := by
    decide +kernel
  have compiledHere : deprecating.compiledStyles? source "App.vue" component () = some [] := by
    decide +kernel
  obtain ⟨⟨output, succeeded, -⟩, -⟩ :=
    transform_of_compiledStyles?_eq_some parsedHere compiledHere
  have listed : ListsTags deprecatedSetup ["!i18n", "docs", "*"] := .folded rfl (.inl rfl)
  obtain ⟨decides, -, -, exports⟩ := customBlocks_exported ofSetup_deprecatedSetup
  have denied : deprecating.exportsTag "i18n" = false := by
    rw [Bool.eq_false_iff, ne_eq, decides _ listed "i18n" (by decide)]
    decide
  have admitted : deprecating.exportsTag "docs" = true :=
    (decides _ listed "docs" (by decide)).2 (.inl (by decide))
  obtain ⟨making, isTrue, code, -⟩ := exports source "App.vue" session output succeeded
  have isComponent : making.descriptor = component :=
    (Prod.mk.inj (Option.some.inj (isTrue.parsed.symm.trans parsedHere))).1
  have id : VirtualId.ofBlock deprecatedSetup.config.languages ⟨"App.vue"⟩
      { tag := "docs", content := "hi" } .customBlocks (some 1) =
        "App.vue?vuepart=customBlocks.1.docs" := by
    decide +kernel
  refine ⟨output, making.assembled.code, succeeded, ?_⟩
  rw [code, isComponent]
  simp [component, denied, admitted, id]

end Plugin

end VirtualBlocks
