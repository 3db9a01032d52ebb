import Mathlib.Data.List.Count
import VirtualBlocks.Markup.Component

/-!
Contract: the descriptor of a source, told from its elements.

Owns:
- the descriptor of a list of blocks, each of which lands in one slot;
- when a source has a descriptor: its elements are all read, and neither of the
  two slots for a single block is taken twice. The descriptor is then that of
  the blocks of the elements;
- the error of a source: an element that is the first to come second in a single
  slot, or else the fault at which reading stops;
- blocks and descriptors without their source maps, in which the name of the file
  plays no part.

Does not own: the elements of a source (`Proofs.Markup.Layout`).
-/

namespace VirtualBlocks

/-! ## Slots -/

namespace Descriptor

/-- The descriptor of some blocks. -/
def ofBlocks (blocks : List Block) : Descriptor where
  template := blocks.find? (·.tag = "template")
  script := blocks.find? (·.tag = "script")
  styles := blocks.filter (·.tag = "style")
  customBlocks :=
    blocks.filter (fun block => block.tag ∉ ["template", "script", "style"])

/-- Whether the slot of a tag is for a single block. -/
def isSingle (tag : String) : Prop :=
  tag = "template" ∨ tag = "script"

/-- No slot for a single block is taken twice. -/
def OncePerSlot (tags : List String) : Prop :=
  ∀ tag, isSingle tag → tags.count tag ≤ 1

theorem OncePerSlot.sublist {tags others : List String} (once : OncePerSlot tags)
    (within : others.Sublist tags) : OncePerSlot others :=
  fun tag single => Nat.le_trans (within.count_le tag) (once tag single)

theorem oncePerSlot_concat_iff (tags : List String) (tag : String) :
    OncePerSlot (tags ++ [tag]) ↔ OncePerSlot tags ∧ ¬ (isSingle tag ∧ tag ∈ tags) := by
  constructor
  · intro once
    refine ⟨fun other single => ?_, fun ⟨single, taken⟩ => ?_⟩
    · have count := once other single
      rw [List.count_append] at count
      omega
    · have count := once tag single
      have positive := List.count_pos_iff.2 taken
      rw [List.count_append, List.count_singleton_self] at count
      omega
  · rintro ⟨once, free⟩ other single
    have count := once other single
    by_cases same : other = tag
    · subst same
      have none := List.count_eq_zero.2 (fun taken => free ⟨single, taken⟩)
      rw [List.count_append, List.count_singleton_self]
      omega
    · rw [List.count_append, List.count_singleton, if_neg (by simpa using Ne.symm same)]
      omega

private theorem find?_tag_eq_none_iff (blocks : List Block) (tag : String) :
    blocks.find? (·.tag = tag) = none ↔ tag ∉ blocks.map Block.tag := by
  rw [List.find?_eq_none, List.mem_map]
  simp

private theorem find?_concat_of_free {blocks : List Block} {block : Block}
    (free : block.tag ∉ blocks.map Block.tag) :
    (blocks ++ [block]).find? (·.tag = block.tag) = some block := by
  rw [List.find?_append, (find?_tag_eq_none_iff blocks block.tag).2 free]
  simp

/-- One more block lands in its slot, unless that one is single and taken. -/
theorem add?_ofBlocks_of_free {blocks : List Block} {block : Block}
    (free : ¬ (isSingle block.tag ∧ block.tag ∈ blocks.map Block.tag)) :
    (ofBlocks blocks).add? block = some (ofBlocks (blocks ++ [block])) := by
  unfold add? ofBlocks
  dsimp only
  by_cases isTemplate : block.tag = "template"
  · have unused := fun taken => free ⟨.inl isTemplate, taken⟩
    have found := find?_concat_of_free unused
    rw [isTemplate] at found unused
    rw [if_pos isTemplate, (find?_tag_eq_none_iff blocks _).2 unused, found]
    simp [isTemplate]
  · rw [if_neg isTemplate]
    by_cases isScript : block.tag = "script"
    · have unused := fun taken => free ⟨.inr isScript, taken⟩
      have found := find?_concat_of_free unused
      rw [isScript] at found unused
      rw [if_pos isScript, (find?_tag_eq_none_iff blocks _).2 unused, found]
      simp [isScript]
    · rw [if_neg isScript]
      by_cases isStyle : block.tag = "style"
      · rw [if_pos isStyle]
        simp [isStyle]
      · rw [if_neg isStyle]
        simp [isTemplate, isScript, isStyle]

theorem add?_ofBlocks_of_taken {blocks : List Block} {block : Block}
    (single : isSingle block.tag) (taken : block.tag ∈ blocks.map Block.tag) :
    (ofBlocks blocks).add? block = none := by
  have filled : (blocks.find? (·.tag = block.tag)).isSome = true := by
    rw [Option.isSome_iff_ne_none, ne_eq, find?_tag_eq_none_iff]
    exact not_not_intro taken
  unfold add? ofBlocks
  dsimp only
  rcases single with isTemplate | isScript
  · rw [isTemplate] at filled
    rw [if_pos isTemplate, if_pos filled]
  · rw [isScript] at filled
    rw [isScript, if_neg (by decide), if_pos rfl, if_pos filled]

private theorem toList_find?_tag {blocks : List Block} {tag : String}
    (once : (blocks.map Block.tag).count tag ≤ 1) :
    (blocks.find? (·.tag = tag)).toList = blocks.filter (·.tag = tag) := by
  induction blocks with
  | nil => rfl
  | cons block rest inductionHypothesis =>
      rw [List.map_cons, List.count_cons] at once
      by_cases same : block.tag = tag
      · rw [if_pos (beq_iff_eq.2 same)] at once
        have noneLeft : tag ∉ rest.map Block.tag := List.count_eq_zero.1 (by omega)
        have nothing : rest.filter (·.tag = tag) = [] := by
          rw [List.filter_eq_nil_iff]
          intro other member equal
          exact noneLeft (of_decide_eq_true equal ▸ List.mem_map_of_mem member)
        rw [List.find?_cons_of_pos (by simpa using same),
          List.filter_cons_of_pos (by simpa using same), nothing]
        rfl
      · rw [List.find?_cons_of_neg (by simpa using same),
          List.filter_cons_of_neg (by simpa using same)]
        exact inductionHypothesis (Nat.le_trans (Nat.le_add_right _ _) once)

private theorem count_filter_eq (block : Block) (isIn : Block → Bool) (blocks : List Block) :
    (blocks.filter isIn).count block = if isIn block then blocks.count block else 0 := by
  split
  · rename_i inClass
    exact List.count_filter inClass
  · rename_i notInClass
    apply List.count_eq_zero.2
    intro member
    exact notInClass (List.mem_filter.1 member).2

/-- Every block lands in exactly one slot. -/
theorem blocks_ofBlocks_perm {blocks : List Block} (once : OncePerSlot (blocks.map Block.tag)) :
    (ofBlocks blocks).blocks.Perm blocks := by
  have templates := toList_find?_tag (once "template" (.inl rfl))
  have scripts := toList_find?_tag (once "script" (.inr rfl))
  unfold Descriptor.blocks ofBlocks
  dsimp only
  rw [templates, scripts, List.perm_iff_count]
  intro block
  rw [List.count_append, List.count_append, List.count_append, count_filter_eq,
    count_filter_eq, count_filter_eq, count_filter_eq]
  by_cases isTemplate : block.tag = "template"
  · simp [isTemplate]
  · by_cases isScript : block.tag = "script"
    · simp [isScript]
    · by_cases isStyle : block.tag = "style" <;> simp [isTemplate, isScript, isStyle]

/-- No block of a descriptor comes from anywhere else. -/
theorem mem_of_mem_blocks_ofBlocks {blocks : List Block} {block : Block}
    (member : block ∈ (ofBlocks blocks).blocks) : block ∈ blocks := by
  unfold Descriptor.blocks ofBlocks at member
  simp only [List.mem_append, Option.mem_toList, List.mem_filter] at member
  rcases member with ((isTemplate | isScript) | isStyle) | isCustom
  · exact List.mem_of_find?_eq_some isTemplate
  · exact List.mem_of_find?_eq_some isScript
  · exact isStyle.1
  · exact isCustom.1

end Descriptor

/-! ## The descriptor of a source -/

section Source

open Markup Descriptor

variable (options : ParseOptions) (file : Path) (source : String)

theorem Markup.Element.tag_mappedBlock (element : Element) :
    (element.mappedBlock options file source).tag = element.tag.name := by
  unfold Element.mappedBlock
  dsimp only
  split <;> rfl

section Step

variable {options file source} {before : List Block} {element : Element}

theorem Descriptor.addElement_of_free
    (free : ¬ (isSingle element.tag.name ∧ element.tag.name ∈ before.map Block.tag)) :
    addElement options file source (ofBlocks before) element =
      .ok (ofBlocks (before ++ [element.mappedBlock options file source])) := by
  rw [← element.tag_mappedBlock options file source] at free
  unfold addElement
  rw [add?_ofBlocks_of_free free]

theorem Descriptor.addElement_of_taken
    (taken : isSingle element.tag.name ∧ element.tag.name ∈ before.map Block.tag) :
    addElement options file source (ofBlocks before) element =
      .error ⟨.duplicate element.tag.name, element.start⟩ := by
  rw [← element.tag_mappedBlock options file source] at taken
  unfold addElement
  rw [add?_ofBlocks_of_taken taken.1 taken.2]

end Step

/-- Elements are added one after the other, as long as their slots are free. -/
theorem Descriptor.foldlM_addElement_eq_ok_iff (elements : List Element) {before : List Block}
    (once : OncePerSlot (before.map Block.tag)) (descriptor : Descriptor) :
    elements.foldlM (addElement options file source) (ofBlocks before) = .ok descriptor ↔
      OncePerSlot (before.map Block.tag ++ elements.map (·.tag.name)) ∧
        descriptor = ofBlocks (before ++ elements.map (·.mappedBlock options file source)) := by
  induction elements generalizing before with
  | nil =>
      rw [List.foldlM_nil, List.map_nil, List.map_nil, List.append_nil, List.append_nil]
      constructor
      · intro finished
        exact ⟨once, (Except.ok.inj finished).symm⟩
      · rintro ⟨-, rfl⟩
        rfl
  | cons element rest inductionHypothesis =>
      let block := element.mappedBlock options file source
      have tag : block.tag = element.tag.name := element.tag_mappedBlock options file source
      rw [List.foldlM_cons]
      by_cases taken : isSingle element.tag.name ∧ element.tag.name ∈ before.map Block.tag
      · rw [addElement_of_taken taken]
        constructor
        · intro finished
          cases finished
        · rintro ⟨onceWithAll, -⟩
          have part : (before.map Block.tag ++ [element.tag.name]).Sublist
              (before.map Block.tag ++ (element :: rest).map (·.tag.name)) :=
            List.Sublist.append_left (List.singleton_sublist.2 List.mem_cons_self) _
          have onceMore := (oncePerSlot_concat_iff _ _).1 (onceWithAll.sublist part)
          exact absurd taken onceMore.2
      · have onceMore : OncePerSlot ((before ++ [block]).map Block.tag) := by
          rw [List.map_append, List.map_singleton, tag]
          exact (oncePerSlot_concat_iff _ _).2 ⟨once, taken⟩
        have remaining := inductionHypothesis onceMore
        rw [List.map_append, List.map_singleton, tag, List.append_assoc, List.append_assoc]
          at remaining
        rw [addElement_of_free taken]
        exact remaining

/-- A source has a descriptor exactly when all its elements are read and no slot
for a single block is taken twice, and it is the one of their blocks. -/
theorem Descriptor.ofSource_eq_ok_iff (descriptor : Descriptor) :
    ofSource options file source = .ok descriptor ↔
      (elementsOf source).stop = none ∧
        OncePerSlot ((elementsOf source).elements.map (·.tag.name)) ∧
        descriptor =
          ofBlocks ((elementsOf source).elements.map (·.mappedBlock options file source)) := by
  have added := @foldlM_addElement_eq_ok_iff options file source (elementsOf source).elements []
    (fun tag single => Nat.zero_le 1)
  unfold ofSource
  dsimp only
  cases folded : (elementsOf source).elements.foldlM (addElement options file source) {} with
  | error error =>
      have failed := (added descriptor).not.1 (by
        show ¬ (elementsOf source).elements.foldlM (addElement options file source) {} = _
        rw [folded]
        exact nofun)
      constructor
      · intro finished
        cases finished
      · intro read
        exact absurd read.2 failed
  | ok built =>
      have slots := (added built).1 folded
      cases (elementsOf source).stop with
      | some stop =>
          constructor
          · intro finished
            cases finished
          · intro read
            cases read.1
      | none =>
          constructor
          · intro finished
            cases finished
            exact ⟨rfl, slots⟩
          · rintro ⟨-, -, rfl⟩
            exact congrArg Except.ok slots.2

/-- Every block of a descriptor is the block of an element. -/
theorem Descriptor.exists_element_of_mem_blocks {descriptor : Descriptor} {block : Block}
    (parsed : ofSource options file source = .ok descriptor)
    (member : block ∈ descriptor.blocks) :
    ∃ element ∈ (elementsOf source).elements,
      element.mappedBlock options file source = block := by
  obtain ⟨-, -, rfl⟩ := (ofSource_eq_ok_iff options file source descriptor).1 parsed
  exact List.mem_map.1 (mem_of_mem_blocks_ofBlocks member)

/-- Elements are added up to the first one whose slot is taken. -/
theorem Descriptor.foldlM_addElement_eq_error {elements : List Element} {added : List Block}
    {error : SplitError} (once : OncePerSlot (added.map Block.tag))
    (failed : elements.foldlM (addElement options file source) (ofBlocks added) = .error error) :
    ∃ earlier element later, elements = earlier ++ element :: later ∧
      error = ⟨.duplicate element.tag.name, element.start⟩ ∧
      OncePerSlot (added.map Block.tag ++ earlier.map (·.tag.name)) ∧
      isSingle element.tag.name ∧
      element.tag.name ∈ added.map Block.tag ++ earlier.map (·.tag.name) := by
  induction elements generalizing added with
  | nil => cases failed
  | cons first rest inductionHypothesis =>
      rw [List.foldlM_cons] at failed
      by_cases taken : isSingle first.tag.name ∧ first.tag.name ∈ added.map Block.tag
      · rw [addElement_of_taken taken] at failed
        cases failed
        refine ⟨[], first, rest, rfl, rfl, ?_, taken.1, ?_⟩
        · rwa [List.map_nil, List.append_nil]
        · rw [List.map_nil, List.append_nil]
          exact taken.2
      · have tags : (added ++ [first.mappedBlock options file source]).map Block.tag =
            added.map Block.tag ++ [first.tag.name] := by
          rw [List.map_append, List.map_singleton, first.tag_mappedBlock options file source]
        have onceMore : OncePerSlot
            ((added ++ [first.mappedBlock options file source]).map Block.tag) := by
          rw [tags]
          exact (oncePerSlot_concat_iff _ _).2 ⟨once, taken⟩
        rw [addElement_of_free taken] at failed
        obtain ⟨earlier, element, later, divided, isError, earlierOnce, single, repeated⟩ :=
          inductionHypothesis onceMore failed
        rw [tags, List.append_assoc] at earlierOnce repeated
        exact ⟨first :: earlier, element, later, congrArg (first :: ·) divided, isError,
          earlierOnce, single, repeated⟩

/-- A source has an error when one of its elements is the first to come second in a
single slot, or else when reading stops. -/
theorem Descriptor.ofSource_eq_error_iff (error : SplitError) :
    ofSource options file source = .error error ↔
      (∃ earlier element later, (elementsOf source).elements = earlier ++ element :: later ∧
        error = ⟨.duplicate element.tag.name, element.start⟩ ∧
        OncePerSlot (earlier.map (·.tag.name)) ∧ isSingle element.tag.name ∧
        element.tag.name ∈ earlier.map (·.tag.name)) ∨
      ∃ stop, (elementsOf source).stop = some stop ∧
        OncePerSlot ((elementsOf source).elements.map (·.tag.name)) ∧
        error = ⟨.element stop.fault, stop.start⟩ := by
  have none : OncePerSlot (([] : List Block).map Block.tag) := fun tag single => Nat.zero_le 1
  have added := @foldlM_addElement_eq_ok_iff options file source
  unfold ofSource
  dsimp only
  show ((elementsOf source).elements.foldlM (addElement options file source) (ofBlocks []) >>= _) =
    _ ↔ _
  constructor
  · intro failed
    cases folded : (elementsOf source).elements.foldlM (addElement options file source)
        (ofBlocks []) with
    | error fault =>
        rw [folded] at failed
        cases failed
        exact .inl (foldlM_addElement_eq_error options file source none folded)
    | ok built =>
        have once := ((added _ none built).1 folded).1
        rw [folded] at failed
        cases stopped : (elementsOf source).stop with
        | none =>
            rw [stopped] at failed
            cases failed
        | some stop =>
            rw [stopped] at failed
            cases failed
            exact .inr ⟨stop, rfl, once, rfl⟩
  · rintro (⟨earlier, element, later, divided, rfl, once, single, repeated⟩ |
      ⟨stop, stopped, once, rfl⟩)
    · have folded := (added earlier none _).2 ⟨once, rfl⟩
      have tags : (earlier.map (·.mappedBlock options file source)).map Block.tag =
          earlier.map (·.tag.name) := by
        rw [List.map_map]
        exact List.map_congr_left (fun other _ => other.tag_mappedBlock options file source)
      rw [divided, List.foldlM_append, folded]
      show ((element :: later).foldlM _ _ >>= _) = _
      rw [List.foldlM_cons, List.nil_append, addElement_of_taken ⟨single, tags ▸ repeated⟩]
      rfl
    · rw [(added _ none _).2 ⟨once, rfl⟩, stopped]
      rfl

/-- An error of a source is at one of its elements, or where reading stops. -/
theorem Descriptor.start_of_ofSource_eq_error {error : SplitError}
    (failed : ofSource options file source = .error error) :
    (∃ element ∈ (elementsOf source).elements, error.start = element.start) ∨
      ∃ stop, (elementsOf source).stop = some stop ∧ error.start = stop.start := by
  rcases (ofSource_eq_error_iff options file source error).1 failed with
    ⟨earlier, element, later, divided, rfl, -⟩ | ⟨stop, stopped, -, rfl⟩
  · rw [divided]
    exact .inl ⟨element, List.mem_append_right _ List.mem_cons_self, rfl⟩
  · exact .inr ⟨stop, stopped, rfl⟩

/-! ## Without source maps -/

def Block.withoutMap (block : Block) : Block :=
  { block with map := none }

def Descriptor.withoutMaps (descriptor : Descriptor) : Descriptor where
  template := descriptor.template.map Block.withoutMap
  script := descriptor.script.map Block.withoutMap
  styles := descriptor.styles.map Block.withoutMap
  customBlocks := descriptor.customBlocks.map Block.withoutMap

theorem Markup.Element.withoutMap_mappedBlock (element : Element) :
    (element.mappedBlock options file source).withoutMap = element.block := by
  unfold Element.mappedBlock
  dsimp only
  split <;> rfl

theorem Descriptor.withoutMaps_ofBlocks (blocks : List Block) :
    (ofBlocks blocks).withoutMaps = ofBlocks (blocks.map Block.withoutMap) := by
  unfold withoutMaps ofBlocks
  simp only [List.find?_map, List.filter_map]
  rfl

theorem Descriptor.add?_withoutMaps (descriptor : Descriptor) (block : Block) :
    (descriptor.add? block).map withoutMaps = descriptor.withoutMaps.add? block.withoutMap := by
  have tag : block.withoutMap.tag = block.tag := rfl
  unfold add?
  rw [tag]
  split
  · cases template : descriptor.template <;> simp [withoutMaps, template]
  · split
    · cases script : descriptor.script <;> simp [withoutMaps, script]
    · split <;> simp [withoutMaps]

/-- A reading that wants no maps. -/
def ParseOptions.withoutMaps (options : ParseOptions) : ParseOptions :=
  { options with needMap := false }

theorem Descriptor.addElement_withoutMaps (other : Path) (descriptor : Descriptor)
    (element : Element) :
    (addElement options file source descriptor element).map withoutMaps =
      addElement options.withoutMaps other source descriptor.withoutMaps element := by
  have added := descriptor.add?_withoutMaps (element.mappedBlock options file source)
  rw [element.withoutMap_mappedBlock] at added
  have unmapped : element.mappedBlock options.withoutMaps other source = element.block := rfl
  unfold addElement
  rw [unmapped, ← added]
  cases descriptor.add? (element.mappedBlock options file source) with
  | none => rfl
  | some further => rfl

/-- Without maps a source has the same descriptor, or the same error, under every
file name. -/
theorem Descriptor.ofSource_withoutMaps (other : Path) :
    (ofSource options file source).map withoutMaps =
      ofSource options.withoutMaps other source := by
  have added : ∀ (elements : List Element) (descriptor : Descriptor),
      (elements.foldlM (addElement options file source) descriptor).map withoutMaps =
        elements.foldlM (addElement options.withoutMaps other source) descriptor.withoutMaps := by
    intro elements
    induction elements with
    | nil => exact fun descriptor => rfl
    | cons element rest inductionHypothesis =>
        intro descriptor
        have first := addElement_withoutMaps options file source other descriptor element
        rw [List.foldlM_cons, List.foldlM_cons, ← first]
        cases addElement options file source descriptor element with
        | error error => rfl
        | ok further => exact inductionHypothesis further
  have whole := added (elementsOf source).elements {}
  unfold ofSource
  dsimp only
  show _ = ((elementsOf source).elements.foldlM (addElement options.withoutMaps other source)
    (withoutMaps {}) >>= _)
  rw [← whole]
  cases (elementsOf source).elements.foldlM (addElement options file source) {} with
  | error error => rfl
  | ok built =>
      cases (elementsOf source).stop with
      | none => rfl
      | some stop => rfl

end Source

end VirtualBlocks
