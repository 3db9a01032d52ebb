import VirtualBlocks.Proofs.Markup.Layout

/-!
Contract: reading a source element by element, up to any place it gets to.

Owns:
- the next element of what is left of a source, and the faults at which reading
  stops;
- the places that reading gets to, each with the elements read before it;
- when a source is refused for an end tag;
- where elements and faults are in the source.

Does not own: where a content ends (`Proofs.Markup.RawText`,
`Proofs.Markup.InnerTags`).
-/

namespace VirtualBlocks

open Markup Text

namespace Markup

/-! ## One element -/

/-- The next element of what is left of a source, and what is left behind it. -/
inductive ReadsElement (source text : List Char) : Element → List Char → Prop where
  | empty {rest inside : List Char} {tag : OpenTag}
      (found : toNextTag text = '<' :: rest) (opened : readOpenTag rest = .ok (tag, inside))
      (selfClosing : tag.selfClosing = true) :
      ReadsElement source text
        ⟨tag, Place.before source ('<' :: rest), Place.before source inside, ""⟩ inside
  | content {rest inside content after : List Char} {tag : OpenTag}
      (found : toNextTag text = '<' :: rest) (opened : readOpenTag rest = .ok (tag, inside))
      (opens : tag.selfClosing = false)
      (closed : body? tag.name.toList (isRaw tag.name) 0 inside = some (content, after)) :
      ReadsElement source text
        ⟨tag, Place.before source ('<' :: rest), Place.before source inside,
          String.ofList content⟩ after

/-- The next tag of what is left of a source starts no element that can be read. -/
inductive StopsAt (source text : List Char) : Stop → Prop where
  | tag {rest : List Char} {fault : TagFault} (found : toNextTag text = '<' :: rest)
      (unread : readOpenTag rest = .error fault) :
      StopsAt source text ⟨.tag fault, Place.before source ('<' :: rest)⟩
  | endTag {rest inside : List Char} {tag : OpenTag} (found : toNextTag text = '<' :: rest)
      (opened : readOpenTag rest = .ok (tag, inside)) (opens : tag.selfClosing = false)
      (unclosed : body? tag.name.toList (isRaw tag.name) 0 inside = none) :
      StopsAt source text ⟨.missingEndTag tag.name, Place.before source ('<' :: rest)⟩

section Elements

variable {source : String} {text left : List Char} {element : Element} {stop : Stop}

/-- What is left of a source has no further tag, or starts with an element behind
which reading goes on, or with a fault. -/
theorem readElements_cases (source text : List Char) :
    readElements source text = ⟨[], none⟩ ∨
      (∃ element left, ReadsElement source text element left ∧ left.length < text.length ∧
        readElements source text = (readElements source left).withFirst element) ∨
      ∃ stop, StopsAt source text stop ∧ readElements source text = ⟨[], some stop⟩ := by
  have shortens := (isLoop_readElements source () text).2
  rw [readElements_eq_turn]
  unfold elementsTurn at shortens ⊢
  cases found : toNextTag text with
  | nil => exact .inl rfl
  | cons mark rest =>
      obtain ⟨rfl, -⟩ := opening_of_toNextTag found
      rw [found] at shortens
      dsimp only at shortens ⊢
      cases opened : readOpenTag rest with
      | error fault => exact .inr (.inr ⟨_, .tag found opened, rfl⟩)
      | ok read =>
          obtain ⟨tag, inside⟩ := read
          rw [opened] at shortens
          dsimp only at shortens ⊢
          cases selfClosing : tag.selfClosing with
          | true =>
              rw [selfClosing, if_pos rfl] at shortens
              exact .inr (.inl ⟨_, inside, .empty found opened selfClosing, shortens.2, rfl⟩)
          | false =>
              rw [selfClosing, if_neg Bool.false_ne_true] at shortens
              cases closed : body? tag.name.toList (isRaw tag.name) 0 inside with
              | none => exact .inr (.inr ⟨_, .endTag found opened selfClosing closed, rfl⟩)
              | some parts =>
                  obtain ⟨content, after⟩ := parts
                  rw [closed] at shortens
                  exact .inr (.inl
                    ⟨_, after, .content found opened selfClosing closed, shortens.2, rfl⟩)

theorem ReadsElement.readElements_eq {source : List Char}
    (reads : ReadsElement source text element left) :
    readElements source text = (readElements source left).withFirst element := by
  rw [readElements_eq_turn, elementsTurn]
  cases reads with
  | empty found opened selfClosing =>
      simp only [found, opened, selfClosing]
      rfl
  | content found opened opens closed =>
      simp only [found, opened, opens, closed]
      rfl

theorem StopsAt.readElements_eq {source : List Char} (stops : StopsAt source text stop) :
    readElements source text = ⟨[], some stop⟩ := by
  rw [readElements_eq_turn, elementsTurn]
  cases stops with
  | tag found unread =>
      simp only [found, unread]
      rfl
  | endTag found opened opens unclosed =>
      simp only [found, opened, opens, unclosed]
      rfl

/-! ## Where an element and a fault are -/

theorem ReadsElement.tagStart {source : List Char} (reads : ReadsElement source text element left) :
    ∃ rest, toNextTag text = '<' :: rest ∧ element.start = Place.before source ('<' :: rest) := by
  cases reads with
  | empty found => exact ⟨_, found, rfl⟩
  | content found => exact ⟨_, found, rfl⟩

theorem StopsAt.tagStart {source : List Char} (stops : StopsAt source text stop) :
    ∃ rest, toNextTag text = '<' :: rest ∧ stop.start = Place.before source ('<' :: rest) := by
  cases stops with
  | tag found => exact ⟨_, found, rfl⟩
  | endTag found => exact ⟨_, found, rfl⟩

/-- An element lies in its source, and what is left behind it starts behind its content. -/
theorem ReadsElement.liesIn (reads : ReadsElement source.toList text element left)
    (within : text <:+ source.toList) :
    element.LiesIn source ∧ element.contentEnd ≤ offsetOf source left ∧
      left <:+ source.toList := by
  cases reads with
  | empty found opened selfClosing =>
      exact ⟨Element.liesIn_of_readOpenTag within found opened (List.nil_append _), Nat.le_refl _,
        (suffix_of_nextTag found opened).trans within⟩
  | @content rest inside content after tag found opened opens closed =>
      have insideWithin := (suffix_of_nextTag found opened).trans within
      obtain ⟨closing, divided⟩ := exists_closing_of_body? closed
      have behindContent := divided ▸ insideWithin
      have leftWithin := (List.suffix_append closing left).trans
        ((List.suffix_append content _).trans behindContent)
      refine ⟨Element.liesIn_of_readOpenTag within found opened divided, ?_, leftWithin⟩
      have contentEnd := offsetOf_add behindContent
      have behind := @offsetOf_le_of_suffix source left _ (List.suffix_append closing left)
      rw [divided] at contentEnd
      show offsetOf source inside + byteLength (String.ofList content).toList ≤ _
      rw [String.toList_ofList, contentEnd]
      exact behind

end Elements

/-! ## The places that reading gets to -/

/-- Reading a source has read the elements `before`, and this text is left. -/
inductive Reaches (source : String) : List Element → List Char → Prop where
  | start : Reaches source [] source.toList
  | next {before : List Element} {text left : List Char} {element : Element}
      (reaches : Reaches source before text)
      (reads : ReadsElement source.toList text element left) :
      Reaches source (before ++ [element]) left

section Places

variable {source : String} {before : List Element} {text left : List Char}

theorem Reaches.suffix (reaches : Reaches source before text) : text <:+ source.toList := by
  induction reaches with
  | start => exact List.suffix_refl _
  | next _ reads inductionHypothesis => exact (reads.liesIn inductionHypothesis).2.2

/-- Every element that was read lies in the source, before what is left. -/
theorem Reaches.liesIn (reaches : Reaches source before text) :
    ∀ element ∈ before, element.LiesIn source ∧ element.contentEnd ≤ offsetOf source text := by
  induction reaches with
  | start => exact List.forall_mem_nil _
  | @next before text left last reaches reads inductionHypothesis =>
      have within := reaches.suffix
      obtain ⟨lies, ended, leftWithin⟩ := reads.liesIn within
      have opened := lies.contentBehind
      have contentEndBehind := lies.contentEndBehind
      obtain ⟨rest, found, tagStart⟩ := reads.tagStart
      have behindText : offsetOf source text ≤ last.start.offset := by
        rw [tagStart]
        exact offsetOf_le_of_suffix (found ▸ toNextTag_suffix text)
      intro element member
      rcases List.mem_append.1 member with earlier | isLast
      · obtain ⟨earlierLies, earlierEnded⟩ := inductionHypothesis element earlier
        exact ⟨earlierLies, by omega⟩
      · rw [List.mem_singleton.1 isLast]
        exact ⟨lies, ended⟩

/-- The elements of a source are those read up to a place and those that follow. -/
theorem Reaches.elementsOf_eq (reaches : Reaches source before text) :
    elementsOf source =
      ⟨before ++ (readElements source.toList text).elements,
        (readElements source.toList text).stop⟩ := by
  induction reaches with
  | start => rfl
  | next _ reads inductionHypothesis =>
      rw [inductionHypothesis, reads.readElements_eq, List.append_assoc]
      rfl

/-- Reading gets to each of its elements, and to the fault at which it stops. -/
theorem Reaches.onward (reaches : Reaches source before text) :
    (∀ earlier element later,
      (readElements source.toList text).elements = earlier ++ element :: later →
        ∃ here left, Reaches source (before ++ earlier) here ∧
          ReadsElement source.toList here element left) ∧
    ∀ stop, (readElements source.toList text).stop = some stop →
      ∃ here, Reaches source (before ++ (readElements source.toList text).elements) here ∧
        StopsAt source.toList here stop := by
  induction size : text.length using Nat.strongRecOn generalizing before text with
  | ind length inductionHypothesis =>
      rcases readElements_cases source.toList text with
        ended | ⟨first, left, reads, shorter, read⟩ | ⟨stop, stops, stopped⟩
      · rw [ended]
        exact ⟨fun earlier element later divided => by simp at divided, nofun⟩
      · obtain ⟨elements, stop⟩ :=
          inductionHypothesis left.length (size ▸ shorter) (reaches.next reads) rfl
        rw [read]
        constructor
        · intro earlier element later divided
          cases earlier with
          | nil =>
              obtain ⟨rfl, -⟩ := List.cons.inj divided
              rw [List.append_nil]
              exact ⟨text, left, reaches, reads⟩
          | cons second others =>
              obtain ⟨rfl, further⟩ := List.cons.inj divided
              have found := elements others element later further
              rwa [List.append_assoc] at found
        · intro last stopped
          have found := stop last stopped
          rwa [List.append_assoc] at found
      · rw [stopped]
        refine ⟨fun earlier element later divided => by simp at divided, ?_⟩
        intro last isLast
        cases isLast
        rw [List.append_nil]
        exact ⟨text, reaches, stops⟩

/-- Reading stops behind every element that was read. -/
theorem Reaches.start_lt_stop {stop : Stop} {element : Element}
    (reaches : Reaches source before text) (stopped : (elementsOf source).stop = some stop)
    (member : element ∈ before) : element.start.offset < stop.start.offset := by
  rw [reaches.elementsOf_eq] at stopped
  obtain ⟨here, reachesHere, stops⟩ := reaches.onward.2 stop stopped
  obtain ⟨lies, ended⟩ := reachesHere.liesIn element (List.mem_append_left _ member)
  obtain ⟨rest, found, tagStart⟩ := stops.tagStart
  have contentBehind := lies.contentBehind
  have contentEndBehind := lies.contentEndBehind
  have behindHere : offsetOf source here ≤ stop.start.offset := by
    rw [tagStart]
    exact offsetOf_le_of_suffix (found ▸ toNextTag_suffix here)
  omega

/-- The next tag of a place that reading gets to starts with `<` and an ASCII letter. -/
theorem Reaches.exists_letter {rest : List Char} (reaches : Reaches source before text)
    (found : toNextTag text = '<' :: rest) :
    ∃ passed letter further, rest = letter :: further ∧ letter.isAlpha = true ∧
      source.toList = passed ++ '<' :: letter :: further ∧
      Place.before source.toList ('<' :: rest) = ⟨byteLength passed, lineFeeds passed⟩ := by
  obtain ⟨-, letter, further, rfl, isLetter⟩ := opening_of_toNextTag found
  obtain ⟨passed, whole⟩ := (found ▸ toNextTag_suffix text).trans reaches.suffix
  refine ⟨passed, letter, further, rfl, isLetter, whole.symm, ?_⟩
  rw [← whole]
  unfold Place.before
  rw [byteLength_append, lineFeeds_append, Nat.add_sub_cancel, Nat.add_sub_cancel]

/-- No end is found of the content of the next element exactly when the source is refused
for its end tag. -/
theorem Reaches.missingEndTag_iff {rest inside : List Char} {tag : OpenTag}
    (options : ParseOptions) (file : Path) (reaches : Reaches source before text)
    (once : Descriptor.OncePerSlot (before.map (·.tag.name)))
    (found : toNextTag text = '<' :: rest) (opened : readOpenTag rest = .ok (tag, inside))
    (opens : tag.selfClosing = false) :
    body? tag.name.toList (isRaw tag.name) 0 inside = none ↔
      Descriptor.ofSource options file source =
        .error ⟨.element (.missingEndTag tag.name), Place.before source.toList ('<' :: rest)⟩ := by
  rw [Descriptor.ofSource_eq_error_iff]
  constructor
  · intro unclosed
    have stops := @StopsAt.endTag source.toList _ _ _ _ found opened opens unclosed
    have whole := reaches.elementsOf_eq
    rw [stops.readElements_eq, List.append_nil] at whole
    rw [whole]
    exact .inr ⟨_, rfl, once, rfl⟩
  · intro failed
    cases closed : body? tag.name.toList (isRaw tag.name) 0 inside with
    | none => rfl
    | some parts =>
        obtain ⟨content, after⟩ := parts
        rcases failed with ⟨_, _, _, _, isDuplicate, _⟩ | ⟨stop, stopped, -, isStop⟩
        · cases isDuplicate
        · -- reading stops behind the element, so not at its start
          have behind := (reaches.next (.content found opened opens closed)).start_lt_stop stopped
            (List.mem_append_right before (List.mem_singleton_self _))
          have sameStart : Place.before source.toList ('<' :: rest) = stop.start :=
            congrArg SplitError.start isStop
          rw [← sameStart] at behind
          exact absurd behind (Nat.lt_irrefl _)

end Places

end Markup

end VirtualBlocks
