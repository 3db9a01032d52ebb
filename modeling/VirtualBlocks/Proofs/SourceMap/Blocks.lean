import VirtualBlocks.Proofs.Markup.Component
import VirtualBlocks.Proofs.Markup.Turns
import VirtualBlocks.Proofs.SourceMap.Mappings

/-!
Contract: the maps of the blocks of a source.

Owns:
- the lines of a part of a text, and where in the text they lie;
- where the content of an element stands in its source;
- which blocks have a map, and that it leads to the lines of the source.

Does not own: the elements of a source in relation to one another
(`Proofs.Markup.Layout`).
-/

namespace VirtualBlocks

open Markup Text

/-! ## Lines of a part -/

namespace Text

/-- A line of the start of a text starts a line of the text. -/
theorem prefix_line_of_append {content line : List Char} (behind : List Char) {i : Nat}
    (here : (content.splitOn '\n')[i]? = some line) :
    ∃ whole, ((content ++ behind).splitOn '\n')[i]? = some whole ∧ line <+: whole := by
  induction content generalizing i line with
  | nil =>
      obtain ⟨first, rest, lines⟩ :=
        List.exists_cons_of_ne_nil (List.splitOn_ne_nil '\n' ([] ++ behind))
      obtain ⟨rfl, rfl⟩ : i = 0 ∧ line = [] := by
        rw [List.splitOn_nil] at here
        cases i with
        | zero => exact ⟨rfl, (Option.some.inj here).symm⟩
        | succ i => contradiction
      exact ⟨first, by rw [lines]; rfl, List.nil_prefix⟩
  | cons c rest inductionHypothesis =>
      rw [List.splitOn_cons_eq_if_modifyHead] at here
      rw [List.cons_append, List.splitOn_cons_eq_if_modifyHead]
      split at here
      · rename_i isEnd
        rw [if_pos isEnd]
        cases i with
        | zero =>
            cases here
            exact ⟨[], rfl, List.nil_prefix⟩
        | succ i => exact inductionHypothesis here
      · rename_i notEnd
        rw [if_neg notEnd]
        rw [List.getElem?_modifyHead] at here ⊢
        cases i with
        | zero =>
            obtain ⟨inner, first, rfl⟩ := Option.map_eq_some_iff.1 here
            obtain ⟨whole, found, starts⟩ := inductionHypothesis first
            rw [found]
            exact ⟨c :: whole, rfl, List.cons_prefix_cons.2 ⟨rfl, starts⟩⟩
        | succ i => exact inductionHypothesis here

/-- A line of a part of a text is in the line of the text that is as many lines further
down as there are line feeds before the part. -/
theorem infix_line_of_append (before : List Char) {content line : List Char}
    (behind : List Char) {i : Nat} (here : (content.splitOn '\n')[i]? = some line) :
    ∃ whole, ((before ++ (content ++ behind)).splitOn '\n')[lineFeeds before + i]? = some whole ∧
      line <:+: whole := by
  induction before with
  | nil =>
      obtain ⟨whole, found, starts⟩ := prefix_line_of_append behind here
      exact ⟨whole, by rwa [lineFeeds, List.count_nil, Nat.zero_add], starts.isInfix⟩
  | cons c rest inductionHypothesis =>
      obtain ⟨whole, found, inside⟩ := inductionHypothesis
      rw [List.cons_append, List.splitOn_cons_eq_if_modifyHead]
      unfold lineFeeds at found ⊢
      rw [List.count_cons]
      split
      · exact ⟨whole, by rwa [Nat.add_right_comm], inside⟩
      · rw [Nat.add_zero, List.getElem?_modifyHead, found]
        generalize rest.count '\n' + i = position
        cases position with
        | zero => exact ⟨c :: whole, rfl, inside.trans (List.suffix_cons c whole).isInfix⟩
        | succ position => exact ⟨whole, rfl, inside⟩

end Text

/-! ## The content of an element -/

namespace Markup

/-- The content of an element stands in a source behind the text `before`. -/
structure Element.StandsBehind (source : List Char) (element : Element)
    (before behind : List Char) : Prop where
  whole : source = before ++ (element.content.toList ++ behind)
  offset : element.contentStart.offset = byteLength before
  line : element.contentStart.line = lineFeeds before

variable {source text : List Char}

theorem Element.standsBehind_of_suffix {content left : List Char}
    (within : content ++ left <:+ source) (tag : OpenTag) (start : Place) :
    ∃ before behind,
      Element.StandsBehind source
        ⟨tag, start, Place.before source (content ++ left), String.ofList content⟩
        before behind := by
  obtain ⟨before, rfl⟩ := within
  refine ⟨before, left, ?_, ?_, ?_⟩
  · rw [String.toList_ofList]
  · show byteLength (before ++ (content ++ left)) - byteLength (content ++ left) = _
    rw [byteLength_append]
    omega
  · show lineFeeds (before ++ (content ++ left)) - lineFeeds (content ++ left) = _
    rw [lineFeeds_append before]
    omega

theorem exists_standsBehind_of_mem_readElements {element : Element} (within : text <:+ source)
    (member : element ∈ (readElements source text).elements) :
    ∃ before behind, element.StandsBehind source before behind := by
  fun_induction readElements source text with
  | case1 => contradiction
  | case2 => contradiction
  | case3 text mark rest found start tag inside opened contentStart selfClosing further
      inductionHypothesis =>
      have insideWithin := (suffix_of_nextTag found opened).trans within
      cases member with
      | head =>
          rw [← @List.nil_append Char inside] at insideWithin
          exact Element.standsBehind_of_suffix insideWithin tag start
      | tail _ later => exact inductionHypothesis insideWithin later
  | case4 => contradiction
  | case5 text mark rest found start tag inside opened contentStart notSelfClosing content after
      closed further inductionHypothesis =>
      have insideWithin := (suffix_of_nextTag found opened).trans within
      obtain ⟨closing, divided⟩ := exists_closing_of_body? closed
      have behindContent := divided ▸ insideWithin
      cases member with
      | head =>
          subst divided
          exact Element.standsBehind_of_suffix behindContent tag start
      | tail _ later =>
          have afterWithin := (List.suffix_append closing after).trans
            ((List.suffix_append content _).trans behindContent)
          exact inductionHypothesis afterWithin later

end Markup

/-! ## Maps -/

/-- Whether a block gets a map: maps are asked for, and its text is raw and not the text
of another file. -/
def ParseOptions.Maps (options : ParseOptions) (block : Block) : Prop :=
  options.needMap = true ∧ (block.tag = "script" ∨ block.tag = "style") ∧ block.src = none

/-- A map leads from the lines of a content, which stands behind `before` in a source,
to the lines of the source that these are part of. -/
structure SourceMap.LeadsBack (map : SourceMap) (source : String) (before content : List Char) :
    Prop where
  isSource : map.sourcesContent = [some source]
  segments : ∃ segments, map.segments? = some segments ∧
    LeadTo segments (lineFeeds before) (content.splitOn '\n')
  inLines : ∀ i line, (content.splitOn '\n')[i]? = some line →
    ∃ whole, (source.toList.splitOn '\n')[lineFeeds before + i]? = some whole ∧ line <:+: whole

variable {options : ParseOptions} {file : Path} {source : String}

theorem Markup.Element.map_mappedBlock (element : Element) :
    (options.Maps (element.mappedBlock options file source) →
      (element.mappedBlock options file source).map =
        some (SourceMap.ofContent file.text source element.contentStart.line
          element.content.toList options.sourceRoot)) ∧
    (¬ options.Maps (element.mappedBlock options file source) →
      (element.mappedBlock options file source).map = none) := by
  have asked : (options.needMap && needsMap element.block) = true ↔
      options.Maps element.block := by
    simp [ParseOptions.Maps, needsMap, isRaw]
  unfold Element.mappedBlock
  dsimp only
  split
  · rename_i mapped
    exact ⟨fun _ => rfl, fun unmapped => absurd (asked.1 mapped) unmapped⟩
  · rename_i unmapped
    exact ⟨fun mapped => absurd (asked.2 mapped) unmapped, fun _ => rfl⟩

theorem SourceMap.leadsBack_ofContent {element : Element} {before behind : List Char}
    (stands : element.StandsBehind source.toList before behind) :
    (SourceMap.ofContent file.text source element.contentStart.line element.content.toList
      options.sourceRoot).LeadsBack source before element.content.toList where
  isSource := rfl
  segments := by
    rw [stands.line]
    exact exists_segments_ofContent _ _ _ _ _
  inLines i line here := by
    rw [stands.whole]
    exact infix_line_of_append before behind here

/-- A block that gets a map, the block of some element of the source, has one that leads
from the lines of its content to the lines that these are part of. No other block has
one. -/
theorem Descriptor.blocks_lead_back {descriptor : Descriptor}
    (parsed : ofSource options file source = .ok descriptor) :
    ∀ block ∈ descriptor.blocks,
      (options.Maps block →
        ∃ element ∈ (elementsOf source).elements, ∃ before behind map,
          element.mappedBlock options file source = block ∧ element.content = block.content ∧
            element.StandsBehind source.toList before behind ∧ block.map = some map ∧
            map.LeadsBack source before block.content.toList) ∧
      (¬ options.Maps block → block.map = none) := by
  intro block member
  obtain ⟨element, read, rfl⟩ := exists_element_of_mem_blocks options file source parsed member
  obtain ⟨before, behind, stands⟩ :=
    exists_standsBehind_of_mem_readElements (List.suffix_refl source.toList) read
  have content : element.content = (element.mappedBlock options file source).content :=
    (congrArg Block.content (element.withoutMap_mappedBlock options file source)).symm
  obtain ⟨mapped, unmapped⟩ := @Element.map_mappedBlock options file source element
  refine ⟨fun isMapped => ?_, unmapped⟩
  refine ⟨element, read, before, behind, _, rfl, content, stands, mapped isMapped, ?_⟩
  rw [← content]
  exact SourceMap.leadsBack_ofContent stands

/-- A script behind a template, with an empty line and an empty comment in it. -/
def mappedSource : String :=
  "<template/>\n<script>\nlet a\n\n//\n// b\n</script>"

/-- The two lines of the script that are not idle are lines 2 and 5 of the source. -/
theorem Descriptor.blocks_lead_back_script :
    ∃ descriptor block map before,
      ofSource {} ⟨"a.vue"⟩ mappedSource = .ok descriptor ∧ block ∈ descriptor.blocks ∧
        ParseOptions.Maps {} block ∧ block.map = some map ∧ map.mappings = ";AAEA;;;AAGA" ∧
        map.LeadsBack mappedSource before block.content.toList := by
  have evaluated : ((ofSource {} ⟨"a.vue"⟩ mappedSource).toOption.bind (·.script)).map
      (fun block => (block.tag, block.src, block.map.map (·.mappings))) =
        some ("script", none, some ";AAEA;;;AAGA") := by
    decide +kernel
  obtain ⟨block, found, fields⟩ := Option.map_eq_some_iff.1 evaluated
  obtain ⟨descriptor, parsed, script⟩ := Option.bind_eq_some_iff.1 found
  obtain ⟨tag, src, mappings⟩ : block.tag = "script" ∧ block.src = none ∧
      block.map.map (·.mappings) = some ";AAEA;;;AAGA" := by
    simpa using fields
  have member : block ∈ descriptor.blocks := by
    simp [blocks, script]
  have maps : ParseOptions.Maps {} block := ⟨rfl, .inl tag, src⟩
  have succeeded : ofSource {} ⟨"a.vue"⟩ mappedSource = .ok descriptor := by
    cases result : ofSource {} ⟨"a.vue"⟩ mappedSource with
    | error error =>
        rw [result] at parsed
        contradiction
    | ok other =>
        rw [result] at parsed
        exact congrArg Except.ok (Option.some.inj parsed)
  obtain ⟨_, _, before, _, map, _, _, _, mapped, leadsBack⟩ :=
    (blocks_lead_back succeeded block member).1 maps
  rw [mapped] at mappings
  exact ⟨descriptor, block, map, before, succeeded, member, maps, mapped,
    Option.some.inj mappings, leadsBack⟩

end VirtualBlocks
