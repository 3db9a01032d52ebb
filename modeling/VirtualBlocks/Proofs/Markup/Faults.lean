import VirtualBlocks.Proofs.Markup.Balance
import VirtualBlocks.Proofs.Markup.TagText

/-!
Contract: what is wrong with a source, and where its error points.

Owns:
- the end tags of an element, raw or not;
- the four ways in which the next tag of a source can offend, each told from how the
  source is written;
- that every error points at a tag that offends in the way it says, by the bytes and the
  lines before it, and that every block before that tag was read.

Does not own: when a source has an error (`Proofs.Markup.Component`).
-/

namespace VirtualBlocks

open Markup Text

namespace Markup

/-! ## Tags that offend -/

/-- Behind the opening tag of an element its end tag follows. Raw text has one wherever its
name is closed. In another content the tags of the name are balanced up to it, each opening
tag through its next `>`. -/
def HasEndTag (tag : String) (inside : List Char) : Prop :=
  if isRaw tag then ∃ content closing, EndsAtFirst tag.toList inside content closing
  else ∃ content closing, EndsBalanced tag.toList cutAtEnd 0 inside content closing

/-- What is wrong with the next tag of a source behind the elements `before`. What follows
its `<` is `rest`. -/
inductive Offends (source text rest : List Char) (before : List Element) :
    SplitFault → Prop where
  | duplicate {element : Element} {left : List Char}
      (reads : ReadsElement source text element left)
      (single : Descriptor.isSingle element.tag.name)
      (taken : element.tag.name ∈ before.map (·.tag.name)) :
      Offends source text rest before (.duplicate element.tag.name)
  | unclosed {pieces : List TagPiece}
      (cutOff : IsWritten (rest.dropWhile isTagNameChar) pieces []) :
      Offends source text rest before
        (.element (.tag (.unclosed (String.ofList (rest.takeWhile isTagNameChar)))))
  | unterminatedValue {pieces : List TagPiece} {name : String} {equals value : List Char}
      {quote : Char}
      (inside : IsWritten (rest.dropWhile isTagNameChar) pieces
        (name.toList ++ (equals ++ quote :: value)))
      (isName : IsAttributeName name.toList) (isEquals : IsEquals equals)
      (isQuote : IsQuote quote) (unclosed : quote ∉ value) :
      Offends source text rest before (.element (.tag (.unterminatedValue name)))
  | missingEndTag {tag : OpenTag} {inside : List Char}
      (opened : readOpenTag rest = .ok (tag, inside)) (opens : tag.selfClosing = false)
      (nowhere : ¬ HasEndTag tag.name inside) :
      Offends source text rest before (.element (.missingEndTag tag.name))

/-- A report points behind `passed` at `<` and an ASCII letter, by the bytes and by the line
feeds that were passed. -/
structure PointsAt (source : String) (report : ParseError) (text : String)
    (passed rest : List Char) : Prop where
  whole : source.toList = passed ++ '<' :: rest
  letter : ∃ letter further, rest = letter :: further ∧ letter.isAlpha = true
  offset : report.offset = some (byteLength passed)
  inside : byteLength passed < source.utf8ByteSize
  message : report.message = text ++ " (line " ++ toString (passed.count '\n' + 1) ++ ")"

section Faults

variable {source : String} {text rest inside : List Char} {before : List Element}

theorem hasEndTag_iff {tag : String} (isName : IsTagName tag.toList) (inside : List Char) :
    HasEndTag tag inside ↔ body? tag.toList (isRaw tag) 0 inside ≠ none := by
  rw [Option.ne_none_iff_exists']
  unfold HasEndTag
  cases isRaw tag with
  | true =>
      rw [if_pos rfl]
      constructor
      · intro ⟨content, closing, ends⟩
        exact ⟨(content, _), body?_raw_eq_some_iff.2 ⟨closing, ends, rfl⟩⟩
      · intro ⟨(content, after), read⟩
        obtain ⟨closing, ends, -⟩ := body?_raw_eq_some_iff.1 read
        exact ⟨content, closing, ends⟩
  | false =>
      rw [if_neg Bool.false_ne_true]
      constructor
      · intro ⟨content, closing, ends⟩
        exact ⟨(content, _), (body?_eq_some_iff isName 0 inside content _).2 ⟨closing, ends, rfl⟩⟩
      · intro ⟨(content, after), read⟩
        obtain ⟨closing, ends, -⟩ := (body?_eq_some_iff isName 0 inside content after).1 read
        exact ⟨content, closing, ends⟩

/-- A tag that cannot be read offends by how it is written. -/
theorem offends_of_readOpenTag {source : List Char} {fault : TagFault}
    (unread : readOpenTag rest = .error fault) :
    Offends source text rest before (.element (.tag fault)) := by
  have written := writtenAs_readAttributes (String.ofList (rest.takeWhile isTagNameChar)) ∅
    (rest.dropWhile isTagNameChar)
  unfold readOpenTag at unread
  rw [unread] at written
  cases fault with
  | unclosed tag =>
      obtain ⟨rfl, pieces, cutOff⟩ := written
      exact .unclosed cutOff
  | unterminatedValue name =>
      obtain ⟨pieces, equals, quote, value, inside, isName, isEquals, isQuote, unclosed⟩ := written
      exact .unterminatedValue inside isName isEquals isQuote unclosed

/-- The tag at which reading stops offends. -/
theorem StopsAt.exists_offends {source : List Char} {stop : Stop} (stops : StopsAt source text stop)
    (before : List Element) :
    ∃ rest, toNextTag text = '<' :: rest ∧ stop.start = Place.before source ('<' :: rest) ∧
      Offends source text rest before (.element stop.fault) := by
  cases stops with
  | tag found unread => exact ⟨_, found, rfl, offends_of_readOpenTag unread⟩
  | endTag found opened opens unclosed =>
      refine ⟨_, found, rfl, .missingEndTag opened opens ?_⟩
      rw [hasEndTag_iff (isTagName_of_readOpenTag found opened)]
      exact not_not_intro unclosed

/-- An error at the next tag of a source points at it. -/
theorem Reaches.exists_pointsAt {error : SplitError} (reaches : Reaches source before text)
    (found : toNextTag text = '<' :: rest)
    (tagStart : error.start = Place.before source.toList ('<' :: rest)) :
    ∃ passed, PointsAt source error.report error.fault.text passed rest ∧
      ∀ element ∈ before, element.LiesIn source ∧ element.contentEnd ≤ byteLength passed := by
  obtain ⟨passed, letter, further, rfl, isLetter, whole, place⟩ := reaches.exists_letter found
  rw [place] at tagStart
  refine ⟨passed, ⟨whole, ⟨letter, further, rfl, isLetter⟩, ?_, ?_, ?_⟩, ?_⟩
  · unfold SplitError.report
    rw [tagStart]
  · have size := utf8ByteSize_ofList source.toList
    rw [String.ofList_toList, whole, byteLength_append] at size
    have positive : 0 < byteLength ('<' :: letter :: further) := by
      have long := length_le_byteLength ('<' :: letter :: further)
      rw [List.length_cons] at long
      omega
    omega
  · unfold SplitError.report
    rw [tagStart]
    rfl
  · intro element member
    obtain ⟨lies, ended⟩ := reaches.liesIn element member
    have behind := @offsetOf_le_of_suffix source _ _ (found ▸ toNextTag_suffix text)
    have sameOffset : offsetOf source ('<' :: letter :: further) = byteLength passed :=
      offsetOf_of_append whole
    exact ⟨lies, by omega⟩

end Faults

end Markup

/-! ## The error of a source -/

section Errors

open Descriptor

/-- The error of a source points at the tag that offends. Every block before that tag was
read, and none of them came second in a single slot. -/
theorem Descriptor.error_points_at_tag {options : ParseOptions} {file : Path} {source : String}
    {error : SplitError} (failed : ofSource options file source = .error error) :
    ∃ before text rest passed,
      Reaches source before text ∧ toNextTag text = '<' :: rest ∧
      Offends source.toList text rest before error.fault ∧
      PointsAt source error.report error.fault.text passed rest ∧
      OncePerSlot (before.map (·.tag.name)) ∧
      ∀ element ∈ before, element.LiesIn source ∧ element.contentEnd ≤ byteLength passed := by
  rcases (ofSource_eq_error_iff options file source error).1 failed with
    ⟨earlier, element, later, divided, rfl, once, single, taken⟩ | ⟨stop, stopped, once, rfl⟩
  · obtain ⟨text, left, reaches, reads⟩ := Reaches.start.onward.1 earlier element later divided
    obtain ⟨rest, found, tagStart⟩ := reads.tagStart
    obtain ⟨passed, pointsAt, readBefore⟩ :=
      @Reaches.exists_pointsAt _ _ _ _ ⟨.duplicate element.tag.name, element.start⟩ reaches found
        tagStart
    exact ⟨earlier, text, rest, passed, reaches, found, .duplicate reads single taken, pointsAt,
      once, readBefore⟩
  · obtain ⟨text, reaches, stops⟩ := Reaches.start.onward.2 stop stopped
    obtain ⟨rest, found, tagStart, offends⟩ := stops.exists_offends (elementsOf source).elements
    obtain ⟨passed, pointsAt, readBefore⟩ :=
      @Reaches.exists_pointsAt _ _ _ _ ⟨.element stop.fault, stop.start⟩ reaches found tagStart
    exact ⟨_, text, rest, passed, reaches, found, offends, pointsAt, once, readBefore⟩

/-- A template on the line behind another one. -/
def twoTemplates : String :=
  "<template><a/></template>\n<template><b/></template>"

theorem Descriptor.error_points_at_tag_second_template :
    ∃ before text rest passed, Reaches twoTemplates before text ∧
      Offends twoTemplates.toList text rest before (.duplicate "template") ∧
      PointsAt twoTemplates
        ⟨"Single file component can contain only one <template> element (line 2)", some 26⟩
        "Single file component can contain only one <template> element" passed rest := by
  have failed : ofSource {} ⟨"App.vue"⟩ twoTemplates =
      .error ⟨.duplicate "template", ⟨26, 1⟩⟩ := by
    let tag : OpenTag := ⟨"template", ∅, false⟩
    have elements : elementsOf twoTemplates =
        ⟨[⟨tag, ⟨0, 0⟩, ⟨10, 0⟩, "<a/>"⟩, ⟨tag, ⟨26, 1⟩, ⟨36, 1⟩, "<b/>"⟩], none⟩ := by
      decide +kernel
    rw [ofSource_eq_error_iff, elements]
    refine .inl ⟨[⟨tag, ⟨0, 0⟩, ⟨10, 0⟩, "<a/>"⟩], _, [], rfl, rfl, ?_, .inl rfl,
      List.mem_singleton_self _⟩
    intro other single
    exact List.count_le_length
  obtain ⟨before, text, rest, passed, reaches, -, offends, pointsAt, -, -⟩ :=
    error_points_at_tag failed
  exact ⟨before, text, rest, passed, reaches, offends, pointsAt⟩

end Errors

end VirtualBlocks
