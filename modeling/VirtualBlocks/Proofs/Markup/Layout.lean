import VirtualBlocks.Proofs.Markup.Component
import VirtualBlocks.Proofs.Markup.Nesting

/-!
Contract: where the elements of a source lie in it.

Owns:
- the place of an element: its opening tag, the slices read from it, and its
  content;
- that every element has a tag name;
- that elements follow one another without overlap, read or cut short;
- the place of an error;
- reading any source to its end, and what a descriptor keeps of its elements.
-/

namespace VirtualBlocks

open Markup Text

namespace Markup

/-! ## Slices of an opening tag -/

/-- Whether some piece of a source is this text. -/
def IsPiece (source piece : String) : Prop :=
  ∃ start stop, IsSlice source piece start stop

/-- The name of an attribute and its text are in a text. -/
def InText (text : List Char) (entry : String × Attribute) : Prop :=
  entry.1.toList <:+: text ∧ ∀ content, entry.2 = .text content → content.toList <:+: text

variable {source : String} {text after rest inside : List Char}

theorem isPiece_of_isPart {piece : String} (within : piece.toList <:+: source.toList) :
    IsPiece source piece := by
  obtain ⟨before, behind, whole⟩ := within
  have slice := isSlice_of_append (whole.symm.trans (List.append_assoc before piece.toList behind))
  rw [String.ofList_toList] at slice
  exact ⟨_, _, slice⟩

theorem InText.of_suffix {entry : String × Attribute} (inText : InText after entry)
    (within : after <:+ text) : InText text entry :=
  ⟨inText.1.trans within.isInfix, fun content value => (inText.2 content value).trans within.isInfix⟩

theorem infix_of_readAttribute {name content : String}
    (read : readAttribute name text = .ok (.text content, after)) : content.toList <:+: text := by
  unfold readAttribute at read
  split at read
  · rename_i rest afterBlanks
    have restWithin := suffix_of_dropWhile_eq afterBlanks
    split at read
    · cases read
      exact List.nil_infix
    · rename_i first inner afterEquals
      have innerWithin := (suffix_of_dropWhile_eq afterEquals).trans restWithin
      split at read
      · split at read
        · contradiction
        · cases read
          rw [String.toList_ofList]
          exact (List.takeWhile_prefix _).isInfix.trans innerWithin.isInfix
      · cases read
        rw [String.toList_ofList, ← afterEquals]
        apply (List.takeWhile_prefix _).isInfix.trans
        exact (List.dropWhile_suffix isMarkupBlank).isInfix.trans restWithin.isInfix
  · cases read

/-- Every attribute of a tag is read from its text or was there before. -/
theorem inText_of_readAttributes {tag : String} {attributes : Table Attribute} {opened : OpenTag}
    (read : readAttributes tag attributes text = .ok (opened, after)) :
    ∀ entry ∈ opened.attributes.entries, entry ∈ attributes.entries ∨ InText text entry := by
  fun_induction readAttributes tag attributes text with
  | case1 => contradiction
  | case2 =>
      cases read
      exact fun entry member => .inl member
  | case3 =>
      cases read
      exact fun entry member => .inl member
  | case4 => contradiction
  | case5 attributes text first rest _ _ separated named name value remaining valueRead
      inductionHypothesis =>
      have behindBlanks : first :: rest <:+ text := separated ▸ List.dropWhile_suffix isMarkupBlank
      have afterName := @List.dropWhile_suffix Char (first :: rest) isAttributeNameChar
      have afterValue := (suffix_of_readAttribute valueRead).trans afterName
      intro entry member
      rcases inductionHypothesis read entry member with inserted | further
      · rcases mem_bindEntry inserted with isNew | known
        · right
          subst isNew
          constructor
          · show (String.ofList _).toList <:+: text
            rw [String.toList_ofList]
            exact (List.takeWhile_prefix _).isInfix.trans behindBlanks.isInfix
          · intro content isText
            subst isText
            exact (infix_of_readAttribute valueRead).trans
              (afterName.trans behindBlanks).isInfix
        · exact .inl known
      · exact .inr (further.of_suffix (afterValue.trans behindBlanks))
  | case6 attributes text first rest _ _ separated _ inductionHypothesis =>
      intro entry member
      exact (inductionHypothesis read entry member).imp id
        (fun further => further.of_suffix (suffix_of_dropWhile_eq separated))

theorem name_of_readAttributes {tag : String} {attributes : Table Attribute} {opened : OpenTag}
    (read : readAttributes tag attributes text = .ok (opened, after)) : opened.name = tag := by
  fun_induction readAttributes tag attributes text with
  | case1 => contradiction
  | case2 =>
      cases read
      rfl
  | case3 =>
      cases read
      rfl
  | case4 => contradiction
  | case5 _ _ _ _ _ _ _ _ _ _ _ _ inductionHypothesis => exact inductionHypothesis read
  | case6 _ _ _ _ _ _ _ _ inductionHypothesis => exact inductionHypothesis read

/-! ## The place of an element -/

/-- What is left at an opening tag starts with `<` and an ASCII letter. -/
theorem opening_of_toNextTag {mark : Char} (found : toNextTag text = mark :: rest) :
    mark = '<' ∧ ∃ letter further, rest = letter :: further ∧ letter.isAlpha = true := by
  fun_induction toNextTag text with
  | case1 => contradiction
  | case2 _ _ _ inductionHypothesis => exact inductionHypothesis found
  | case3 _ _ _ _ inductionHypothesis => exact inductionHypothesis found
  | case4 => contradiction
  | case5 _ _ _ _ _ _ _ inductionHypothesis => exact inductionHypothesis found
  | case6 c tail isMark _ next follows _ letter =>
      cases found
      obtain ⟨further, divided⟩ := List.head?_eq_some_iff.1 follows
      exact ⟨not_not.1 isMark, next, further, divided, letter⟩
  | case7 _ _ _ _ _ _ _ _ inductionHypothesis => exact inductionHypothesis found

/-- An element lies in a source: it starts with `<` and an ASCII letter, its
content is what stands between the two places of the content, and its name and
attributes are pieces of the source. -/
structure Element.LiesIn (source : String) (element : Element) : Prop where
  opening : ∃ letter : Char, letter.isAlpha = true ∧
    IsSlice source (String.ofList ['<', letter]) element.start.offset (element.start.offset + 2)
  contentBehind : element.start.offset < element.contentStart.offset
  contentEndBehind : element.contentStart.offset ≤ element.contentEnd
  content : IsSlice source element.content element.contentStart.offset element.contentEnd
  name : IsPiece source element.tag.name
  attributes : ∀ entry ∈ element.tag.attributes.entries,
    IsPiece source entry.1 ∧ ∀ content, entry.2 = .text content → IsPiece source content

/-- An element that is read lies in the source. -/
theorem Element.liesIn_of_readOpenTag {mark : Char} {tag : OpenTag} {content left : List Char}
    (within : text <:+ source.toList) (found : toNextTag text = mark :: rest)
    (opened : readOpenTag rest = .ok (tag, inside)) (divided : content ++ left = inside) :
    Element.LiesIn source
      ⟨tag, Place.before source.toList (mark :: rest), Place.before source.toList inside,
        String.ofList content⟩ := by
  have tagWithin : mark :: rest <:+ source.toList := (found ▸ toNextTag_suffix text).trans within
  have restWithin := (List.suffix_cons mark rest).trans tagWithin
  obtain ⟨passed, passedRest⟩ := suffix_of_readOpenTag opened
  have insideWithin := (List.suffix_append passed inside).trans (passedRest ▸ restWithin)
  obtain ⟨rfl, letter, further, isRest, isLetter⟩ := opening_of_toNextTag found
  constructor
  · refine ⟨letter, isLetter, ?_⟩
    subst isRest
    have slice := @isSlice_offsetOf source ['<', letter] further tagWithin
    have moved := @offsetOf_add source ['<', letter] further tagWithin
    have size : byteLength ['<', letter] = 2 := by
      have ascii := toNat_lt_of_isAlphanum (Bool.or_eq_true_iff.2 (.inl isLetter))
      rw [byteLength, byteLength, utf8Size_of_lt ascii]
      rfl
    rw [← moved, size] at slice
    exact slice
  · rw [← passedRest] at tagWithin ⊢
    exact offsetOf_lt_of_append tagWithin (List.cons_ne_nil '<' passed)
  · exact Nat.le_add_right _ _
  · subst divided
    have slice := isSlice_offsetOf insideWithin
    rw [← offsetOf_add insideWithin] at slice
    unfold Element.contentEnd
    rw [String.toList_ofList]
    exact slice
  · apply isPiece_of_isPart
    rw [name_of_readAttributes opened, String.toList_ofList]
    exact (List.takeWhile_prefix _).isInfix.trans restWithin.isInfix
  · intro entry member
    have behindName := (@List.dropWhile_suffix Char rest isTagNameChar).trans restWithin
    rcases inText_of_readAttributes opened entry member with inEmpty | inTag
    · exact absurd inEmpty List.not_mem_nil
    · have inSource := inTag.of_suffix behindName
      exact ⟨isPiece_of_isPart inSource.1, fun content value =>
        isPiece_of_isPart (inSource.2 content value)⟩

/-! ## The names of elements -/

theorem isTagName_of_readOpenTag {mark : Char} {tag : OpenTag}
    (found : toNextTag text = mark :: rest) (opened : readOpenTag rest = .ok (tag, inside)) :
    IsTagName tag.name.toList := by
  obtain ⟨-, letter, further, rfl, isLetter⟩ := opening_of_toNextTag found
  rw [name_of_readAttributes opened, String.toList_ofList,
    List.takeWhile_cons_of_pos (isTagNameChar_of_isAlpha isLetter)]
  exact ⟨letter, _, rfl, isLetter, List.all_eq_true.1 List.all_takeWhile⟩

/-- The name of every element that is read is a tag name. -/
theorem isTagName_of_mem_readElements {characters : List Char} {element : Element}
    (member : element ∈ (readElements characters text).elements) :
    IsTagName element.tag.name.toList := by
  fun_induction readElements characters text with
  | case1 => contradiction
  | case2 => contradiction
  | case3 text mark rest found start tag inside opened contentStart selfClosing further
      inductionHypothesis =>
      cases member with
      | head => exact isTagName_of_readOpenTag found opened
      | tail _ later => exact inductionHypothesis later
  | case4 => contradiction
  | case5 text mark rest found start tag inside opened contentStart notSelfClosing content after
      closed further inductionHypothesis =>
      cases member with
      | head => exact isTagName_of_readOpenTag found opened
      | tail _ later => exact inductionHypothesis later

/-! ## The places of all elements -/

/-- Elements follow one another: each starts where the content of the one before it
has ended, or behind. -/
def FollowOneAnother (elements : List Element) : Prop :=
  elements.Pairwise (fun earlier later => earlier.contentEnd ≤ later.start.offset)

/-- The elements that are read lie in the source behind the start of reading and
follow one another. -/
structure Reading.LaidOut (source : String) (start : Nat) (reading : Reading) : Prop where
  liesIn : ∀ element ∈ reading.elements, element.LiesIn source
  behind : ∀ element ∈ reading.elements, start ≤ element.start.offset
  ordered : FollowOneAnother reading.elements
  stopIsOffset : ∀ stop, reading.stop = some stop → IsOffset source stop.start.offset

theorem Reading.LaidOut.withFirst {element : Element} {reading : Reading} {start left : Nat}
    (first : element.LiesIn source) (behind : start ≤ element.start.offset)
    (ended : element.contentEnd ≤ left) (laidOut : reading.LaidOut source left) :
    (reading.withFirst element).LaidOut source start where
  liesIn := List.forall_mem_cons.2 ⟨first, laidOut.liesIn⟩
  behind := by
    have startBehind := first.contentBehind
    have contentBehind := first.contentEndBehind
    refine List.forall_mem_cons.2 ⟨behind, fun later member => ?_⟩
    have laterBehind := laidOut.behind later member
    omega
  ordered := by
    refine List.pairwise_cons.2 ⟨fun later member => ?_, laidOut.ordered⟩
    exact Nat.le_trans ended (laidOut.behind later member)
  stopIsOffset := laidOut.stopIsOffset

theorem readElements_laidOut (within : text <:+ source.toList) :
    (readElements source.toList text).LaidOut source (offsetOf source text) := by
  have noElements {stop : Option Stop} {start : Nat}
      (stopIsOffset : ∀ fault, stop = some fault → IsOffset source fault.start.offset) :
      (Reading.mk [] stop).LaidOut source start :=
    ⟨List.forall_mem_nil _, List.forall_mem_nil _, List.Pairwise.nil, stopIsOffset⟩
  have tagSuffix {text tag : List Char} (found : toNextTag text = tag) : tag <:+ text :=
    found ▸ toNextTag_suffix text
  fun_induction readElements source.toList text with
  | case1 => exact noElements nofun
  | case2 text mark rest found start fault opened =>
      apply noElements
      intro stop isStop
      cases isStop
      exact isOffset_offsetOf ((tagSuffix found).trans within)
  | case3 text mark rest found start tag inside opened contentStart selfClosing further
      inductionHypothesis =>
      have first := Element.liesIn_of_readOpenTag within found opened (List.nil_append inside)
      have remaining := inductionHypothesis ((suffix_of_nextTag found opened).trans within)
      exact remaining.withFirst first (offsetOf_le_of_suffix (tagSuffix found))
        (Nat.le_refl (offsetOf source inside))
  | case4 text mark rest found start tag inside opened notSelfClosing closed =>
      apply noElements
      intro stop isStop
      cases isStop
      exact isOffset_offsetOf ((tagSuffix found).trans within)
  | case5 text mark rest found start tag inside opened contentStart notSelfClosing content after
      closed further inductionHypothesis =>
      have insideWithin := (suffix_of_nextTag found opened).trans within
      obtain ⟨closing, divided⟩ := exists_closing_of_body? closed
      have behindContent := divided ▸ insideWithin
      have afterWithin := (List.suffix_append closing after).trans
        ((List.suffix_append content _).trans behindContent)
      have first := Element.liesIn_of_readOpenTag within found opened divided
      have ended : offsetOf source inside + byteLength (String.ofList content).toList ≤
          offsetOf source after := by
        have contentEnd := offsetOf_add behindContent
        rw [divided] at contentEnd
        rw [String.toList_ofList, contentEnd]
        exact offsetOf_le_of_suffix (List.suffix_append closing after)
      exact (inductionHypothesis afterWithin).withFirst first
        (offsetOf_le_of_suffix (tagSuffix found)) ended

/-! ## Reading a whole source -/

/-- The classes of characters that a reader takes one byte after the other. -/
def scannedClasses : List (Char → Bool) :=
  [isMarkupBlank, isTagNameChar, isAttributeNameChar, isBareValueChar, (· != '"'), (· != '\'')]

theorem isAsciiClass_of_mem {isIn : Char → Bool} (member : isIn ∈ scannedClasses) :
    IsAsciiClass isIn := by
  have other {c : Char} (foreign : 128 ≤ c.toNat) {known : Char} (ascii : known.toNat < 128) :
      (c == known) = false := by
    apply beq_false_of_ne
    rintro rfl
    omega
  have noBlank {c : Char} (foreign : 128 ≤ c.toNat) : isMarkupBlank c = false := by
    unfold isMarkupBlank
    rw [other foreign (by decide), other foreign (by decide), other foreign (by decide),
      other foreign (by decide), other foreign (by decide)]
    rfl
  have noAlphanumeric {c : Char} (foreign : 128 ≤ c.toNat) : c.isAlphanum = false := by
    rw [Bool.eq_false_iff]
    intro alphanumeric
    have ascii := toNat_lt_of_isAlphanum alphanumeric
    omega
  have sameEverywhere {value : Bool} (same : ∀ c : Char, 128 ≤ c.toNat → isIn c = value) :
      IsAsciiClass isIn :=
    fun c other foreign otherForeign => (same c foreign).trans (same other otherForeign).symm
  unfold scannedClasses at member
  simp only [List.mem_cons, List.not_mem_nil, or_false] at member
  rcases member with rfl | rfl | rfl | rfl | rfl | rfl
  · exact sameEverywhere (fun c foreign => noBlank foreign)
  · apply @sameEverywhere false
    intro c foreign
    unfold isTagNameChar
    rw [noAlphanumeric foreign, other foreign (by decide), other foreign (by decide),
      other foreign (by decide), other foreign (by decide)]
    rfl
  · apply @sameEverywhere true
    intro c foreign
    unfold isAttributeNameChar
    rw [noBlank foreign, bne, bne, bne, other foreign (by decide), other foreign (by decide),
      other foreign (by decide)]
    rfl
  · apply @sameEverywhere true
    intro c foreign
    unfold isBareValueChar
    rw [noBlank foreign, bne, other foreign (by decide)]
    rfl
  · apply @sameEverywhere true
    intro c foreign
    exact congrArg not (other foreign (by decide))
  · apply @sameEverywhere true
    intro c foreign
    exact congrArg not (other foreign (by decide))

/-- Every loop over a source ends and goes forward in it from character to
character, and so does what is read of a class byte by byte. -/
structure ReadsForward (source : String) : Prop where
  toNextTag : ScansForward source (fun _ => toNextTag) nextTagTurn
  attributes : ∀ tag, ScansForward source (readAttributes tag) (attributesTurn tag)
  body : ∀ name raw, ScansForward source (body? name raw) (bodyTurn name raw)
  elements :
    ScansForward source (fun _ => readElements source.toList) (elementsTurn source.toList)
  pieces : ∀ isIn ∈ scannedClasses, ∀ {left : List Char}, left <:+ source.toList →
    IsSlice source (String.ofList (left.takeWhile isIn)) (offsetOf source left)
      (offsetOf source left + ((bytes left).takeWhile (ofByte isIn)).length)

theorem readsForward (source : String) : ReadsForward source where
  toNextTag := isLoop_toNextTag.scansForward source
  attributes tag := (isLoop_readAttributes tag).scansForward source
  body name raw := (isLoop_body? name raw).scansForward source
  elements := (isLoop_readElements source.toList).scansForward source
  pieces _ member _ within := isSlice_takeWhile (isAsciiClass_of_mem member) within

end Markup

/-! ## What a descriptor keeps -/

namespace Descriptor

/-- A list of blocks holds the blocks of some elements, in the order in which they
start. -/
def ListsInOrder (blockOf : Element → Block) (elements : List Element) (listed : List Block) :
    Prop :=
  ∃ kept : List Element, kept.Sublist elements ∧ listed = kept.map blockOf ∧
    kept.Pairwise (fun earlier later => earlier.start.offset < later.start.offset)

/-- A descriptor keeps the blocks of some elements: each in exactly one slot, and
lists in order. -/
structure Keeps (blockOf : Element → Block) (elements : List Element) (descriptor : Descriptor) :
    Prop where
  blocks : descriptor.blocks.Perm (elements.map blockOf)
  blockCount : descriptor.blockCount = elements.length
  styles : ListsInOrder blockOf elements descriptor.styles
  customBlocks : ListsInOrder blockOf elements descriptor.customBlocks

theorem listsInOrder_filter {source : String} {elements : List Element}
    (liesIn : ∀ element ∈ elements, element.LiesIn source) (ordered : FollowOneAnother elements)
    (blockOf : Element → Block) (isIn : Block → Bool) :
    ListsInOrder blockOf elements ((elements.map blockOf).filter isIn) := by
  refine ⟨elements.filter (isIn ∘ blockOf), List.filter_sublist, List.filter_map, ?_⟩
  apply List.Pairwise.sublist List.filter_sublist
  apply ordered.imp_of_mem
  intro earlier later member _ behind
  have contentBehind := (liesIn earlier member).contentBehind
  have contentEndBehind := (liesIn earlier member).contentEndBehind
  omega

theorem keeps_ofBlocks {source : String} {elements : List Element}
    (liesIn : ∀ element ∈ elements, element.LiesIn source) (ordered : FollowOneAnother elements)
    {blockOf : Element → Block} (once : OncePerSlot ((elements.map blockOf).map Block.tag)) :
    (ofBlocks (elements.map blockOf)).Keeps blockOf elements where
  blocks := blocks_ofBlocks_perm once
  blockCount := (blocks_ofBlocks_perm once).length_eq.trans (List.length_map blockOf)
  styles := listsInOrder_filter liesIn ordered blockOf _
  customBlocks := listsInOrder_filter liesIn ordered blockOf _

/-- Any source is read to its end without leaving it or cutting a character. An
error has its place in the source. A descriptor keeps every element: these lie in
the source, follow one another, and none is lost or listed twice. -/
theorem ofSource_keeps_elements (options : ParseOptions) (file : Path) (source : String) :
    ReadsForward source ∧
      match ofSource options file source with
      | .error error => IsOffset source error.start.offset
      | .ok descriptor =>
          ∃ elements, elementsOf source = ⟨elements, none⟩ ∧
            (∀ element ∈ elements, element.LiesIn source ∧
              (element.mappedBlock options file source).content = element.content) ∧
            FollowOneAnother elements ∧
            descriptor.Keeps (·.mappedBlock options file source) elements := by
  have laidOut := readElements_laidOut (List.suffix_refl source.toList)
  refine ⟨readsForward source, ?_⟩
  split
  · rename_i error failed
    rcases start_of_ofSource_eq_error options file source failed with
      ⟨element, member, atElement⟩ | ⟨stop, stopped, atStop⟩
    · obtain ⟨_, _, slice⟩ := (laidOut.liesIn element member).opening
      rw [atElement]
      exact slice.startIsOffset
    · rw [atStop]
      exact laidOut.stopIsOffset stop stopped
  · rename_i descriptor succeeded
    obtain ⟨allRead, once, rfl⟩ := (ofSource_eq_ok_iff options file source descriptor).1 succeeded
    have tags : ((elementsOf source).elements.map (·.mappedBlock options file source)).map
        Block.tag = (elementsOf source).elements.map (·.tag.name) := by
      rw [List.map_map]
      exact List.map_congr_left (fun element _ => element.tag_mappedBlock options file source)
    refine ⟨(elementsOf source).elements, ?_, ?_, laidOut.ordered, ?_⟩
    · rw [← allRead]
    · intro element member
      exact ⟨laidOut.liesIn element member,
        congrArg Block.content (element.withoutMap_mappedBlock options file source)⟩
    · exact keeps_ofBlocks laidOut.liesIn laidOut.ordered (tags ▸ once)

end Descriptor

end VirtualBlocks
