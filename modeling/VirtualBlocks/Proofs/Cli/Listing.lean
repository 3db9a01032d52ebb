import VirtualBlocks.Cli.Run
import VirtualBlocks.Proofs.Plugin.Exports
import VirtualBlocks.Proofs.Plugin.Extraction
import VirtualBlocks.Proofs.VirtualId.BlockIds

/-!
Contract: the list of blocks that the command line prints, and the plugin.

Owns:
- the blocks of a component in the order of the list, each with its kind and position;
- the entries of the list, one for each block, and that their ids differ;
- that the list has the ids by which a component module refers to its script and to the
  custom blocks that it exports.

Does not own: the code of a component module (`Proofs.Plugin.Exports`).
-/

namespace VirtualBlocks

/-! ## Slots -/

/-- A block with the kind and the position that it is addressed by. -/
structure Slot where
  kind : BlockKind
  index : Option Nat
  block : Block

namespace Descriptor

def listSlots (kind : BlockKind) (blocks : List Block) : List Slot :=
  blocks.zipIdx.map (fun entry => ⟨kind, some entry.2, entry.1⟩)

/-- The blocks of a component in the order in which they are addressed. -/
def slots (descriptor : Descriptor) : List Slot :=
  descriptor.template.toList.map (Slot.mk .template none) ++
    descriptor.script.toList.map (Slot.mk .script none) ++
    listSlots .styles descriptor.styles ++ listSlots .customBlocks descriptor.customBlocks

theorem map_block_listSlots (kind : BlockKind) (blocks : List Block) :
    (listSlots kind blocks).map Slot.block = blocks := by
  unfold listSlots
  rw [List.map_map]
  exact List.zipIdx_map_fst 0 blocks

theorem map_block_slots (descriptor : Descriptor) :
    descriptor.slots.map Slot.block = descriptor.blocks := by
  have single (kind : BlockKind) (block : Option Block) :
      (block.toList.map (Slot.mk kind none)).map Slot.block = block.toList := by
    rw [List.map_map]
    exact List.map_id _
  unfold slots blocks
  simp only [List.map_append, map_block_listSlots, single]

theorem mem_listSlots_iff (kind : BlockKind) (blocks : List Block) (slot : Slot) :
    slot ∈ listSlots kind blocks ↔
      ∃ position, blocks[position]? = some slot.block ∧ slot.kind = kind ∧
        slot.index = some position := by
  unfold listSlots
  rw [List.mem_map]
  constructor
  · rintro ⟨⟨block, position⟩, member, rfl⟩
    exact ⟨position, List.mk_mem_zipIdx_iff_getElem?.1 member, rfl, rfl⟩
  · rintro ⟨position, present, rfl, isIndex⟩
    exact ⟨(slot.block, position), List.mk_mem_zipIdx_iff_getElem?.2 present, by rw [← isIndex]⟩

/-- The slots are those that address blocks. -/
theorem mem_slots_iff (descriptor : Descriptor) (slot : Slot) :
    slot ∈ descriptor.slots ↔ descriptor.Addresses slot.kind slot.index slot.block := by
  unfold slots
  simp only [List.mem_append, List.mem_map, Option.mem_toList, mem_listSlots_iff]
  constructor
  · rintro (((⟨block, present, rfl⟩ | ⟨block, present, rfl⟩) |
      ⟨position, present, isKind, isIndex⟩) | ⟨position, present, isKind, isIndex⟩)
    · exact .template present
    · exact .script present
    · rw [isKind, isIndex]
      exact .style present
    · rw [isKind, isIndex]
      exact .custom present
  · obtain ⟨kind, index, block⟩ := slot
    intro addressed
    cases addressed with
    | template present => exact .inl (.inl (.inl ⟨block, present, rfl⟩))
    | script present => exact .inl (.inl (.inr ⟨block, present, rfl⟩))
    | style present => exact .inl (.inr ⟨_, present, rfl, rfl⟩)
    | custom present => exact .inr ⟨_, present, rfl, rfl⟩

/-- Two slots differ in their kind or in their position. -/
def Slot.Differ (left right : Slot) : Prop :=
  ¬ (left.kind = right.kind ∧ left.index = right.index)

theorem kind_of_mem_single {kind : BlockKind} {block : Option Block} :
    ∀ slot ∈ block.toList.map (Slot.mk kind none), slot.kind = kind :=
  List.forall_mem_map.2 (fun _ _ => rfl)

theorem kind_of_mem_listSlots {kind : BlockKind} {blocks : List Block} :
    ∀ slot ∈ listSlots kind blocks, slot.kind = kind :=
  List.forall_mem_map.2 (fun _ _ => rfl)

theorem pairwise_single (kind : BlockKind) (block : Option Block) :
    (block.toList.map (Slot.mk kind none)).Pairwise Slot.Differ := by
  cases block with
  | none => exact .nil
  | some block => exact List.pairwise_singleton _ _

theorem pairwise_listSlots (kind : BlockKind) (blocks : List Block) :
    (listSlots kind blocks).Pairwise Slot.Differ := by
  have positions : (blocks.zipIdx.map Prod.snd).Pairwise (· < ·) := by
    rw [List.zipIdx_map_snd]
    exact List.pairwise_lt_range' 1
  refine List.pairwise_map.2 ((List.pairwise_map.1 positions).imp ?_)
  rintro left right earlier ⟨-, same⟩
  exact Nat.ne_of_lt earlier (Option.some.inj same)

/-- Slots of one kind differ from slots of other kinds before them. -/
theorem pairwise_append_of_kind {before behind : List Slot} {kind : BlockKind}
    (beforeDiffer : before.Pairwise Slot.Differ) (behindDiffer : behind.Pairwise Slot.Differ)
    (others : ∀ slot ∈ before, slot.kind ≠ kind) (isKind : ∀ slot ∈ behind, slot.kind = kind) :
    (before ++ behind).Pairwise Slot.Differ := by
  refine List.pairwise_append.2 ⟨beforeDiffer, behindDiffer, ?_⟩
  intro first inBefore second inBehind same
  exact others first inBefore (same.1.trans (isKind second inBehind))

theorem pairwise_slots (descriptor : Descriptor) : descriptor.slots.Pairwise Slot.Differ := by
  have apart {part : List Slot} {kind other : BlockKind} (differ : kind ≠ other)
      (isKind : ∀ slot ∈ part, slot.kind = kind) : ∀ slot ∈ part, slot.kind ≠ other :=
    fun slot member same => differ ((isKind slot member).symm.trans same)
  have singles : (descriptor.template.toList.map (Slot.mk .template none) ++
      descriptor.script.toList.map (Slot.mk .script none)).Pairwise Slot.Differ :=
    pairwise_append_of_kind (pairwise_single _ _) (pairwise_single _ _)
      (apart (by decide) kind_of_mem_single) kind_of_mem_single
  have withStyles := pairwise_append_of_kind singles
    (pairwise_listSlots .styles descriptor.styles)
    (List.forall_mem_append.2 ⟨apart (by decide) kind_of_mem_single,
      apart (by decide) kind_of_mem_single⟩) kind_of_mem_listSlots
  exact pairwise_append_of_kind withStyles
    (pairwise_listSlots .customBlocks descriptor.customBlocks)
    (List.forall_mem_append.2 ⟨List.forall_mem_append.2
      ⟨apart (by decide) kind_of_mem_single, apart (by decide) kind_of_mem_single⟩,
      apart (by decide) kind_of_mem_listSlots⟩) kind_of_mem_listSlots

/-- In a descriptor that is read the script is the block with that tag. -/
theorem tag_eq_script_iff {options : ParseOptions} {file : Path} {source : String}
    {descriptor : Descriptor} (read : ofSource options file source = .ok descriptor)
    {kind : BlockKind} {index : Option Nat} {block : Block}
    (addressed : descriptor.Addresses kind index block) :
    block.tag = "script" ↔ kind = .script := by
  obtain ⟨-, -, rfl⟩ := (ofSource_eq_ok_iff options file source descriptor).1 read
  cases addressed with
  | template present =>
      have tag := List.find?_some present
      simp only [decide_eq_true_eq] at tag
      simp [tag]
  | script present =>
      have tag := List.find?_some present
      simp only [decide_eq_true_eq] at tag
      simp [tag]
  | style present =>
      have tag := (List.mem_filter.1 (List.mem_of_getElem? present)).2
      simp only [decide_eq_true_eq] at tag
      simp [tag]
  | custom present =>
      have tag := (List.mem_filter.1 (List.mem_of_getElem? present)).2
      simp only [decide_eq_true_eq, List.mem_cons, not_or] at tag
      simp [tag.2.1]

end Descriptor

namespace Cli

/-! ## Entries -/

/-- An entry tells the tag, the id and the source of a block, what is said about a style,
and whether a custom block is exported. -/
structure Describes (languages : Languages) (file : Path) (exports : String → Bool) (slot : Slot)
    (entry : BlockEntry) : Prop where
  tag : entry.tag = slot.block.tag
  id : entry.id = VirtualId.ofBlock languages file slot.block slot.kind slot.index
  src : entry.src = slot.block.src
  isScoped : entry.isScoped = if slot.kind = .styles then some slot.block.isScoped else none
  isModule : entry.isModule = if slot.kind = .styles then some slot.block.isModule else none
  exported : entry.exported =
    if slot.kind = .customBlocks then some (exports slot.block.tag) else none

section Entries

variable (languages : Languages) (tags : Option TagSetting) (file : Path)

theorem describes_entryOf (slot : Slot) :
    Describes languages file (TagSetting.allows tags) slot
      (entryOf languages tags file slot.kind slot.index slot.block) := by
  obtain ⟨kind, index, block⟩ := slot
  cases kind <;> constructor <;> rfl

theorem entriesFrom_eq_map (kind : BlockKind) (first : Nat) (blocks : List Block) :
    entriesFrom languages tags file kind first blocks =
      (blocks.zipIdx first).map
        (fun entry => entryOf languages tags file kind (some entry.2) entry.1) := by
  induction blocks generalizing first with
  | nil => rfl
  | cons block rest inductionHypothesis =>
      rw [entriesFrom, inductionHypothesis, List.zipIdx_cons, List.map_cons]

theorem entries_eq_map (descriptor : Descriptor) :
    entries languages tags file descriptor =
      descriptor.slots.map
        (fun slot => entryOf languages tags file slot.kind slot.index slot.block) := by
  unfold entries Descriptor.slots Descriptor.listSlots
  simp only [entriesFrom_eq_map, List.map_append, List.map_map, Function.comp_def]

theorem forall₂_describes (descriptor : Descriptor) :
    List.Forall₂ (Describes languages file (TagSetting.allows tags)) descriptor.slots
      (entries languages tags file descriptor) := by
  rw [entries_eq_map, List.forall₂_map_right_iff]
  exact List.forall₂_same.2 (fun slot _ => describes_entryOf languages tags file slot)

/-- The ids of the entries differ. -/
theorem nodup_ids (descriptor : Descriptor) :
    ((entries languages tags file descriptor).map BlockEntry.id).Nodup := by
  rw [entries_eq_map, List.map_map]
  refine List.pairwise_map.2 (descriptor.pairwise_slots.imp_of_mem ?_)
  intro left right inLeft inRight differ same
  have leftAddressed := Descriptor.addresses_iff.1 ((descriptor.mem_slots_iff left).1 inLeft)
  have rightAddressed := Descriptor.addresses_iff.1 ((descriptor.mem_slots_iff right).1 inRight)
  have leftId := (describes_entryOf languages tags file left).id
  have rightId := (describes_entryOf languages tags file right).id
  exact differ (VirtualId.write_inj leftAddressed.2 rightAddressed.2
    (leftId.symm.trans (same.trans rightId)))

/-- The exported entries are those of the admitted custom blocks. -/
theorem ids_of_exported (descriptor : Descriptor) :
    ((entries languages tags file descriptor).filter
        (fun entry => entry.exported = some true)).map BlockEntry.id =
      ((descriptor.customBlocks.zipIdx).filter
        (fun entry => TagSetting.allows tags entry.1.tag)).map
          (fun entry => VirtualId.ofBlock languages file entry.1 .customBlocks (some entry.2)) := by
  have unexported {part : List BlockEntry} (nothing : ∀ entry ∈ part, entry.exported = none) :
      part.filter (fun entry => entry.exported = some true) = [] :=
    List.filter_eq_nil_iff.2 (fun entry member => by simp [nothing entry member])
  have custom (entry : Block × Nat) :
      decide ((entryOf languages tags file .customBlocks (some entry.2) entry.1).exported =
        some true) = TagSetting.allows tags entry.1.tag := by
    show decide (some (TagSetting.allows tags entry.1.tag) = some true) = _
    cases TagSetting.allows tags entry.1.tag <;> rfl
  have single {kind : BlockKind} (other : kind ≠ .customBlocks) (block : Option Block) :
      ∀ entry ∈ block.toList.map (entryOf languages tags file kind none),
        entry.exported = none := by
    intro entry member
    obtain ⟨block, -, rfl⟩ := List.mem_map.1 member
    exact ((describes_entryOf languages tags file ⟨kind, none, block⟩).exported).trans
      (if_neg other)
  have style : ∀ entry ∈ entriesFrom languages tags file .styles 0 descriptor.styles,
      entry.exported = none := by
    rw [entriesFrom_eq_map, List.forall_mem_map]
    exact fun entry member => rfl
  unfold entries
  rw [List.filter_append, List.filter_append, List.filter_append,
    unexported (single (by decide) _), unexported (single (by decide) _), unexported style,
    List.append_nil, List.append_nil, List.nil_append, entriesFrom_eq_map, List.filter_map,
    List.map_map]
  simp only [Function.comp_def, custom]
  rfl

/-- The map of a block is of no consequence for its entry. -/
theorem entries_withoutMaps (descriptor : Descriptor) :
    entries languages tags file descriptor.withoutMaps =
      entries languages tags file descriptor := by
  have entry (kind : BlockKind) (index : Option Nat) (block : Block) :
      entryOf languages tags file kind index block.withoutMap =
        entryOf languages tags file kind index block := by
    cases kind <;> rfl
  unfold entries Descriptor.withoutMaps
  simp only [entriesFrom_eq_map, Option.toList_map, List.map_map, List.zipIdx_map,
    Function.comp_def, entry]
  rfl

end Entries

/-! ## The list and the plugin -/

/-- A component that is read is listed, whether its blocks have maps or not. -/
theorem exists_blocks_of_ofSource {reads : Reads} {config : Config} {file : Path} {source : String}
    {options : ParseOptions} {descriptor : Descriptor} (level : LogLevel)
    (read : readText reads file = .ok source) (sameRoot : options.sourceRoot = config.sourceRoot)
    (parsed : Descriptor.ofSource options file source = .ok descriptor) :
    ∃ warning,
      blocks reads level config file =
        .ok ((Json.array ((entries config.languages (tagSetting config).1 file descriptor).map
          BlockEntry.toJson)).toIndented, warning) := by
  have unmapped : Descriptor.ofSource { needMap := false, sourceRoot := config.sourceRoot } file
      source = .ok descriptor.withoutMaps := by
    have without := Descriptor.ofSource_withoutMaps options file source file
    rw [parsed] at without
    rw [← sameRoot]
    exact without.symm
  unfold blocks
  rw [read, ← entries_withoutMaps]
  dsimp only [bind, Except.bind]
  rw [unmapped]
  exact ⟨_, rfl⟩

/-- The entry script of a component refers to the entry with the tag of a script, and to
nothing else. -/
theorem refersTo_entryStatements_iff {σ : Type} (plugin : Plugin σ) (file : Path)
    (tags : Option TagSetting) {options : ParseOptions} {parsedAs : Path} {source : String}
    {descriptor : Descriptor}
    (parsed : Descriptor.ofSource options parsedAs source = .ok descriptor)
    (styles : List CompiledStyle) (id : String) :
    (∃ line ∈ plugin.entryStatements file descriptor styles, Plugin.RefersTo line id) ↔
      ∃ entry ∈ entries plugin.languages tags file descriptor,
        entry.tag = "script" ∧ entry.id = id := by
  rw [entries_eq_map]
  constructor
  · rintro ⟨line, member, refers⟩
    unfold Plugin.entryStatements at member
    split at member
    · contradiction
    · rename_i script present
      have addressed : descriptor.Addresses .script none script := .script present
      refine ⟨_, List.mem_map_of_mem ((descriptor.mem_slots_iff ⟨.script, none, script⟩).2
        addressed), (Descriptor.tag_eq_script_iff parsed addressed).2 rfl, ?_⟩
      exact (Plugin.refersTo_entryLines_iff plugin file script styles id).1
        ⟨line, member, refers⟩
  · rintro ⟨entry, member, isScript, isId⟩
    obtain ⟨⟨kind, index, block⟩, inSlots, rfl⟩ := List.mem_map.1 member
    have addressed := (descriptor.mem_slots_iff ⟨kind, index, block⟩).1 inSlots
    have described := describes_entryOf plugin.languages tags file ⟨kind, index, block⟩
    obtain rfl : kind = .script :=
      (Descriptor.tag_eq_script_iff parsed addressed).1 (described.tag.symm.trans isScript)
    cases addressed with
    | script present =>
        unfold Plugin.entryStatements
        rw [present]
        exact (Plugin.refersTo_entryLines_iff plugin file block styles id).2
          (described.id.symm.trans isId)

/-- The list of a component has one entry for each block that the plugin reads, in order,
and no two of them have one id. After a transform with the same options, the entry script
refers to the listed script and to nothing else, and the exports behind the assembled code
have the ids of the entries that are listed as exported. -/
theorem listing_agrees {σ : Type} {config : Config} {mode : Option BuildMode}
    {environment : String → Option String} {workingDirectory : Path}
    {collaborators : Collaborators σ} {plugin : Plugin σ}
    (built : Plugin.ofSetup { config, mode, environment, workingDirectory } collaborators =
      .ok plugin)
    (reader : collaborators.parse = Plugin.builtinReader) {reads : Reads} (level : LogLevel)
    {filename source : String} {descriptor : Descriptor}
    (read : readText reads ⟨filename⟩ = .ok source)
    (parsed : Descriptor.ofSource plugin.parseOptions ⟨filename⟩ source = .ok descriptor) :
    let file : Path := ⟨filename⟩
    ∃ listed warning,
      blocks reads level config file =
        .ok ((Json.array (listed.map BlockEntry.toJson)).toIndented, warning) ∧
      descriptor.slots.map Slot.block = descriptor.blocks ∧
      List.Forall₂ (Describes plugin.languages file plugin.exportsTag) descriptor.slots listed ∧
      (listed.map BlockEntry.id).Nodup ∧
      ∀ session output, (plugin.transform source filename session).1 = .ok (some output) →
        ∃ making : Plugin.Making σ,
          making.IsTrue plugin source filename session.world
            (plugin.transform source filename session).2.world ∧
          making.descriptor = descriptor ∧
          let script := plugin.entryScript file descriptor making.styles
          let lines := plugin.entryStatements file descriptor making.styles
          (∃ imports, making.parts.script.code =
            String.ofList (Text.unindent (script ++ imports).toList)) ∧
          script.toList = ['\n'].intercalate (lines.map String.toList) ∧
          (∀ id, (∃ line ∈ lines, Plugin.RefersTo line id) ↔
            ∃ entry ∈ listed, entry.tag = "script" ∧ entry.id = id) ∧
          output.code = making.assembled.code ++
            String.join (((listed.filter (fun entry => entry.exported = some true)).map
              BlockEntry.id).map (fun id => "\nexport * from '" ++ id ++ "'")) := by
  intro file
  obtain ⟨filter, -, rfl⟩ := Plugin.exists_filter_of_ofSetup built
  obtain ⟨warning, printed⟩ :=
    exists_blocks_of_ofSource level read (rfl : _ = config.sourceRoot) parsed
  refine ⟨_, warning, printed, descriptor.map_block_slots, forall₂_describes _ _ file descriptor,
    nodup_ids _ _ file descriptor, ?_⟩
  intro session output succeeded
  obtain ⟨making, isTrue, code⟩ := Plugin.exists_making succeeded
  have isDescriptor : making.descriptor = descriptor :=
    Except.ok.inj ((Plugin.split_of_parsed? reader isTrue.parsed).symm.trans parsed)
  refine ⟨making, isTrue, isDescriptor, ?_, ?_, ?_, ?_⟩
  · rw [isTrue.parts_eq rfl, isDescriptor]
    exact ⟨_, rfl⟩
  · exact Plugin.toList_entryScript _ file descriptor making.styles
  · exact refersTo_entryStatements_iff _ file _ parsed making.styles
  · rw [code, isDescriptor, Plugin.exportsOf_eq_join, ids_of_exported, List.map_map]
    rfl

/-- A component with a script and two custom blocks, of which the second one is exported. -/
def listedSource : String :=
  "<script>\n</script>\n<i18n>en</i18n>\n<docs>hi</docs>"

theorem listing_agrees_deprecated :
    let reads : Reads := fun _ => .ok (Text.bytes listedSource.toList)
    ∃ (listed : List BlockEntry) (warning : String) (output : TransformOutput)
      (assembled : String),
      blocks reads .warn Plugin.deprecatedSetup.config ⟨"App.vue"⟩ =
        .ok ((Json.array (listed.map BlockEntry.toJson)).toIndented, warning) ∧
      (listed.map BlockEntry.id).Nodup ∧
      (Plugin.deprecating.transform listedSource "App.vue" { world := () }).1 =
        .ok (some output) ∧
      output.code = assembled ++
        String.join (((listed.filter (fun entry => entry.exported = some true)).map
          BlockEntry.id).map (fun id => "\nexport * from '" ++ id ++ "'")) := by
  intro reads
  let session : Session Unit := { world := () }
  let component : Descriptor :=
    { script := some { tag := "script", content := "\n" }
      customBlocks := [{ tag := "i18n", content := "en" }, { tag := "docs", content := "hi" }] }
  have read : readText reads ⟨"App.vue"⟩ = .ok listedSource := by decide +kernel
  have parsed : Descriptor.ofSource Plugin.deprecating.parseOptions ⟨"App.vue"⟩ listedSource =
      .ok component := by
    decide +kernel
  have parsedHere : Plugin.deprecating.parsed? listedSource "App.vue" session.world =
      some (component, ()) := by
    decide +kernel
  have compiledHere : Plugin.deprecating.compiledStyles? listedSource "App.vue" component () =
      some [] := by
    decide +kernel
  obtain ⟨⟨output, succeeded, -⟩, -⟩ :=
    Plugin.transform_of_compiledStyles?_eq_some parsedHere compiledHere
  have built : Plugin.ofSetup
      { config := Plugin.deprecatedSetup.config, mode := none, environment := fun _ => none,
        workingDirectory := ⟨"."⟩ } Plugin.verbatimCollaborators = .ok Plugin.deprecating :=
    Plugin.ofSetup_deprecatedSetup
  obtain ⟨listed, warning, printed, -, -, differ, agrees⟩ :=
    listing_agrees built rfl .warn read parsed
  obtain ⟨making, -, -, -, -, -, code⟩ := agrees session output succeeded
  exact ⟨listed, warning, output, making.assembled.code, printed, differ, succeeded, code⟩

end Cli

end VirtualBlocks
