import VirtualBlocks.Proofs.Markup.Progress

/-!
Contract: where raw text ends.

Owns:
- the offsets of a source at which a closing tag of a name stands;
- that raw text ends before the first closing tag of its element, whatever stands in
  it, and that reading goes on behind the end of that tag;
- that the end tag of raw text is missing exactly when there is no such tag.

Does not own: contents in which elements nest (`Proofs.Markup.InnerTags`).
-/

namespace VirtualBlocks

open Markup Text

namespace Markup

/-! ## The first closing tag of a text -/

/-- A content and the closing tag behind it, the first one of the name. -/
structure EndsAtFirst (name text content closing : List Char) : Prop where
  whole : content ++ closing = text
  closes : StartsClosing name closing
  first : ∀ front back, front ++ back = content → back ≠ [] →
    ¬ StartsClosing name (back ++ closing)

section Texts

variable {name text content closing rest after : List Char}

theorem EndsAtFirst.cons {c : Char} (goesOn : ¬ StartsClosing name (c :: rest))
    (ends : EndsAtFirst name rest content closing) :
    EndsAtFirst name (c :: rest) (c :: content) closing where
  whole := congrArg (c :: ·) ends.whole
  closes := ends.closes
  first front back divided nonempty := by
    cases front with
    | nil =>
        rw [List.nil_append] at divided
        rw [divided, List.cons_append, ends.whole]
        exact goesOn
    | cons other inner => exact ends.first inner back (List.cons.inj divided).2 nonempty

theorem EndsAtFirst.of_startsClosing (ends : EndsAtFirst name text content closing)
    (closes : StartsClosing name text) : content = [] ∧ closing = text := by
  have empty : content = [] := by
    by_contra nonempty
    apply ends.first [] content rfl nonempty
    rw [ends.whole]
    exact closes
  subst empty
  exact ⟨rfl, ends.whole⟩

/-- Raw text is read through the first closing tag of its name. -/
theorem body?_raw_eq_some_iff :
    body? name true 0 text = some (content, after) ↔
      ∃ closing, EndsAtFirst name text content closing ∧ after = afterFirst ['>'] closing := by
  induction text generalizing content with
  | nil =>
      constructor
      · intro read
        rw [body?] at read
        contradiction
      · rintro ⟨closing, ends, -⟩
        obtain ⟨_, _, starts, _⟩ := ends.closes
        have whole := ends.whole
        rw [starts] at whole
        exact absurd whole (List.append_ne_nil_of_right_ne_nil _ (List.cons_ne_nil _ _))
  | cons c rest inductionHypothesis =>
      by_cases closes : StartsClosing name (c :: rest)
      · rw [body?_of_startsClosing true closes]
        constructor
        · intro read
          cases read
          refine ⟨c :: rest, ⟨rfl, closes, ?_⟩, rfl⟩
          intro front back divided nonempty
          exact absurd (List.append_eq_nil_iff.1 divided).2 nonempty
        · rintro ⟨closing, ends, isAfter⟩
          obtain ⟨rfl, rfl⟩ := ends.of_startsClosing closes
          rw [isAfter]
      · have goesOn : body? name true 0 (c :: rest) = prepend [c] (body? name true 0 rest) :=
          body?_of_character closes (fun notRaw => absurd notRaw (by decide)) 0
        rw [goesOn]
        constructor
        · intro read
          obtain ⟨inner, innerRead, rfl⟩ := prepend_eq_some read
          obtain ⟨closing, ends, isAfter⟩ := inductionHypothesis.1 innerRead
          exact ⟨closing, ends.cons closes, isAfter⟩
        · rintro ⟨closing, ends, isAfter⟩
          have nonempty : content ≠ [] := by
            rintro rfl
            have whole := ends.whole
            rw [List.nil_append] at whole
            exact closes (whole ▸ ends.closes)
          obtain ⟨first, inner, rfl⟩ := List.exists_cons_of_ne_nil nonempty
          obtain ⟨rfl, divided⟩ := List.cons.inj ends.whole
          have innerEnds : EndsAtFirst name rest inner closing := by
            refine ⟨divided, ends.closes, fun front back parts => ?_⟩
            exact ends.first (first :: front) back (congrArg (first :: ·) parts)
          rw [inductionHypothesis.2 ⟨closing, innerEnds, isAfter⟩]
          rfl

/-- A text in which a closing tag stands is raw text up to the first one. -/
theorem exists_endsAtFirst (closes : StartsClosing name closing) (within : closing <:+ text) :
    ∃ content first, EndsAtFirst name text content first := by
  induction text with
  | nil =>
      obtain ⟨_, _, starts, _⟩ := closes
      rw [List.suffix_nil.1 within] at starts
      contradiction
  | cons c rest inductionHypothesis =>
      by_cases here : StartsClosing name (c :: rest)
      · refine ⟨[], c :: rest, rfl, here, ?_⟩
        intro front back divided nonempty
        exact absurd (List.append_eq_nil_iff.1 divided).2 nonempty
      · rcases List.suffix_cons_iff.1 within with whole | inRest
        · exact absurd (whole ▸ closes) here
        · obtain ⟨content, first, ends⟩ := inductionHypothesis inRest
          exact ⟨c :: content, first, ends.cons here⟩

end Texts

/-! ## Closing tags of a source -/

/-- At an offset of a source a closing tag stands. -/
def ClosingTagAt (source : String) (name : List Char) (offset : Nat) : Prop :=
  ∃ before closing, source.toList = before ++ closing ∧ byteLength before = offset ∧
    StartsClosing name closing

/-- The first closing tag of a source from an offset on. -/
structure FirstClosingTag (source : String) (name : List Char) (start offset : Nat) : Prop where
  behind : start ≤ offset
  closes : ClosingTagAt source name offset
  first : ∀ other, start ≤ other → ClosingTagAt source name other → offset ≤ other

/-- What is left of a source behind the first `>` from an offset on, which is nothing if
there is none. -/
def LeftBehindEnd (source : String) (offset : Nat) (left : List Char) : Prop :=
  ∃ before behind, source.toList = before ++ behind ∧ byteLength before = offset ∧
    ('>' ∉ behind ∧ left = [] ∨ ∃ front, '>' ∉ front ∧ behind = front ++ '>' :: left)

section Sources

variable {source : String} {name inside content closing : List Char} {offset : Nat}

theorem ClosingTagAt.exists_suffix (closes : ClosingTagAt source name offset)
    (within : inside <:+ source.toList) (behind : offsetOf source inside ≤ offset) :
    ∃ closing, closing <:+ inside ∧ offsetOf source closing = offset ∧
      StartsClosing name closing := by
  obtain ⟨before, closing, whole, isOffset, starts⟩ := closes
  have here : offsetOf source closing = offset := by rw [offsetOf_of_append whole, isOffset]
  have closingWithin : closing <:+ source.toList := ⟨before, whole.symm⟩
  rcases List.suffix_or_suffix_of_suffix closingWithin within with inInside | ⟨front, divided⟩
  · exact ⟨closing, inInside, here, starts⟩
  · -- a closing tag that starts before the inside would have a smaller offset
    have empty : front = [] := by
      by_contra nonempty
      have less := offsetOf_lt_of_append (divided ▸ closingWithin) nonempty
      rw [divided] at less
      omega
    rw [empty, List.nil_append] at divided
    exact ⟨closing, divided ▸ List.suffix_refl inside, here, starts⟩

theorem EndsAtFirst.closingTagAt (ends : EndsAtFirst name inside content closing)
    (within : inside <:+ source.toList) :
    offsetOf source inside ≤ offsetOf source closing ∧
      ClosingTagAt source name (offsetOf source closing) := by
  have inInside : closing <:+ inside := ⟨content, ends.whole⟩
  obtain ⟨before, whole⟩ := inInside.trans within
  exact ⟨offsetOf_le_of_suffix inInside,
    before, closing, whole.symm, (offsetOf_of_append whole.symm).symm, ends.closes⟩

theorem EndsAtFirst.firstClosingTag (ends : EndsAtFirst name inside content closing)
    (within : inside <:+ source.toList) :
    FirstClosingTag source name (offsetOf source inside) (offsetOf source closing) where
  behind := (ends.closingTagAt within).1
  closes := (ends.closingTagAt within).2
  first other behind closes := by
    obtain ⟨later, ⟨front, whole⟩, here, starts⟩ := closes.exists_suffix within behind
    have closingWithin : closing <:+ inside := ⟨content, ends.whole⟩
    rw [← here]
    rcases List.suffix_or_suffix_of_suffix closingWithin ⟨front, whole⟩ with
      ⟨back, divided⟩ | laterWithin
    · have empty : back = [] := by
        by_contra nonempty
        rw [← divided, ← List.append_assoc, ← ends.whole] at whole
        have parts := List.append_cancel_right whole
        exact ends.first front back parts nonempty (divided ▸ starts)
      rw [← divided, empty]
      exact Nat.le_refl _
    · exact offsetOf_le_of_suffix laterWithin

theorem FirstClosingTag.exists_endsAtFirst
    (isFirst : FirstClosingTag source name (offsetOf source inside) offset)
    (within : inside <:+ source.toList) :
    ∃ content closing, EndsAtFirst name inside content closing ∧
      offsetOf source closing = offset := by
  obtain ⟨found, inInside, -, starts⟩ := isFirst.closes.exists_suffix within isFirst.behind
  obtain ⟨content, closing, ends⟩ := Markup.exists_endsAtFirst starts inInside
  have same := ends.firstClosingTag within
  refine ⟨content, closing, ends, Nat.le_antisymm ?_ ?_⟩
  · exact same.first offset isFirst.behind isFirst.closes
  · exact isFirst.first _ same.behind same.closes

theorem body?_raw_eq_none_iff (within : inside <:+ source.toList) :
    body? name true 0 inside = none ↔
      ¬ ∃ offset, offsetOf source inside ≤ offset ∧ ClosingTagAt source name offset := by
  constructor
  · intro unclosed ⟨offset, behind, closes⟩
    obtain ⟨closing, inInside, -, starts⟩ := closes.exists_suffix within behind
    obtain ⟨content, first, ends⟩ := exists_endsAtFirst starts inInside
    rw [body?_raw_eq_some_iff.2 ⟨first, ends, rfl⟩] at unclosed
    contradiction
  · intro nowhere
    cases closed : body? name true 0 inside with
    | none => rfl
    | some parts =>
        obtain ⟨closing, ends, -⟩ := body?_raw_eq_some_iff.1 closed
        exact absurd ⟨_, ends.closingTagAt within⟩ nowhere

theorem leftBehindEnd_afterFirst (within : closing <:+ source.toList) :
    LeftBehindEnd source (offsetOf source closing) (afterFirst ['>'] closing) := by
  obtain ⟨before, whole⟩ := within
  exact ⟨before, closing, whole.symm, (offsetOf_of_append whole.symm).symm,
    afterFirst_singleton_eq_or '>' closing⟩

end Sources

end Markup

/-! ## The end of raw text -/

section Elements

open Descriptor

variable {source : String} {before : List Element} {text rest inside : List Char} {tag : OpenTag}

/-- The content of a script or style ends before the first closing tag of its name behind
the opening tag, and reading goes on behind the end of that tag. The end tag is missing
exactly when there is no such closing tag. -/
theorem Markup.rawText_ends_at_first_closingTag (options : ParseOptions) (file : Path)
    (reaches : Reaches source before text) (once : OncePerSlot (before.map (·.tag.name)))
    (found : toNextTag text = '<' :: rest) (opened : readOpenTag rest = .ok (tag, inside))
    (opens : tag.selfClosing = false) (raw : tag.name = "script" ∨ tag.name = "style") :
    let start := Place.before source.toList ('<' :: rest)
    let contentStart := Place.before source.toList inside
    let name := tag.name.toList
    (∀ offset, FirstClosingTag source name contentStart.offset offset →
      ∃ content left, Reaches source (before ++ [⟨tag, start, contentStart, content⟩]) left ∧
        IsSlice source content contentStart.offset offset ∧ LeftBehindEnd source offset left) ∧
    ((¬ ∃ offset, contentStart.offset ≤ offset ∧ ClosingTagAt source name offset) ↔
      ofSource options file source = .error ⟨.element (.missingEndTag tag.name), start⟩) := by
  intro start contentStart name
  have isRawTag : isRaw tag.name = true := by
    unfold isRaw
    rcases raw with isScript | isStyle
    · rw [isScript]
      rfl
    · rw [isStyle]
      rfl
  have within : inside <:+ source.toList := (suffix_of_nextTag found opened).trans reaches.suffix
  -- a closing tag ends the content, and the element is read
  have readThrough {content closing : List Char} (ends : EndsAtFirst name inside content closing) :
      ReadsElement source.toList text ⟨tag, start, contentStart, String.ofList content⟩
        (afterFirst ['>'] closing) := by
    apply ReadsElement.content found opened opens
    rw [isRawTag]
    exact body?_raw_eq_some_iff.2 ⟨closing, ends, rfl⟩
  refine ⟨?_, ?_⟩
  · intro offset isFirst
    obtain ⟨content, closing, ends, rfl⟩ := isFirst.exists_endsAtFirst within
    refine ⟨String.ofList content, _, reaches.next (readThrough ends), ?_, ?_⟩
    · have slice := @isSlice_offsetOf source content closing (ends.whole ▸ within)
      rw [ends.whole] at slice
      exact slice
    · apply leftBehindEnd_afterFirst
      exact (List.suffix_append content closing).trans (ends.whole ▸ within)
  · have missing := reaches.missingEndTag_iff options file once found opened opens
    rw [isRawTag] at missing
    exact (body?_raw_eq_none_iff within).symm.trans missing

/-- A style behind another block. A longer name, an opening tag and a letter of two bytes
stand in it, and its end tag is in upper case. -/
def upperCaseSource : String :=
  "<b/><style>a</styles>é<style></STYLE >."

theorem Markup.rawText_ends_at_first_closingTag_upper_case :
    ∃ before tag content left,
      Reaches upperCaseSource (before ++ [⟨tag, ⟨4, 0⟩, ⟨11, 0⟩, content⟩]) left ∧
        IsSlice upperCaseSource content 11 30 ∧ LeftBehindEnd upperCaseSource 30 left := by
  let block : Element := ⟨⟨"b", ∅, true⟩, ⟨0, 0⟩, ⟨4, 0⟩, ""⟩
  let behindBlock := "<style>a</styles>é<style></STYLE >.".toList
  let inside := "a</styles>é<style></STYLE >.".toList
  have first : ReadsElement upperCaseSource.toList upperCaseSource.toList block behindBlock :=
    @ReadsElement.empty _ _ upperCaseSource.toList.tail behindBlock ⟨"b", ∅, true⟩
      (by decide +kernel) (by decide +kernel) rfl
  have once : OncePerSlot ([block].map (·.tag.name)) := by
    intro tag single
    exact List.count_le_length
  have found : toNextTag behindBlock = '<' :: behindBlock.tail := by decide +kernel
  have opened : readOpenTag behindBlock.tail = .ok (⟨"style", ∅, false⟩, inside) := by
    decide +kernel
  have ended := (rawText_ends_at_first_closingTag {} ⟨"App.vue"⟩ (Reaches.start.next first) once
    found opened rfl (.inr rfl)).1 30
  have start : Place.before upperCaseSource.toList ('<' :: behindBlock.tail) = ⟨4, 0⟩ := by
    decide +kernel
  have contentStart : Place.before upperCaseSource.toList inside = ⟨11, 0⟩ := by decide +kernel
  rw [start, contentStart] at ended
  have isFirst : FirstClosingTag upperCaseSource "style".toList 11 30 := by
    have closed : body? "style".toList true 0 inside =
        some ("a</styles>é<style>".toList, ['.']) := by
      decide +kernel
    obtain ⟨closing, ends, -⟩ := body?_raw_eq_some_iff.1 closed
    have within : inside <:+ upperCaseSource.toList :=
      ⟨"<b/><style>".toList, by decide +kernel⟩
    have insideOffset : offsetOf upperCaseSource inside = 11 := by decide +kernel
    have closingOffset := offsetOf_add (ends.whole ▸ within)
    have contentLength : byteLength "a</styles>é<style>".toList = 19 := by decide +kernel
    rw [ends.whole, insideOffset, contentLength] at closingOffset
    have isFirst := ends.firstClosingTag within
    rwa [insideOffset, ← closingOffset] at isFirst
  obtain ⟨content, left, reaches, slice, behind⟩ := ended isFirst
  exact ⟨[] ++ [block], _, content, left, reaches, slice, behind⟩

end Elements

end VirtualBlocks
