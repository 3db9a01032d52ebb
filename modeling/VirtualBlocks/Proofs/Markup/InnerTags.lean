import VirtualBlocks.Proofs.Markup.Balance
import VirtualBlocks.Proofs.Markup.TagText

/-!
Contract: opening tags inside a content, and the same tags read at top level.

Owns:
- when an opening tag ends at its first `>`: no quoted value of it holds one, and if it
  does not close itself it does not end in a value without quotes that ends in `/`;
- that the search for the end of a content takes exactly these tags for what they are at
  top level;
- that a content with no other tags of its name ends where it would end with each of them
  read as at top level.

Does not own: how a tag is written (`Proofs.Markup.TagText`).
-/

namespace VirtualBlocks

open Markup Text

namespace Markup

/-! ## Tags that end at their first `>` -/

namespace TagPiece

def HoldsEnd : TagPiece → Prop
  | quoted _ _ _ value => '>' ∈ value
  | _ => False

def EndsInSlash : TagPiece → Prop
  | bare _ _ value => value.getLast? = some '/'
  | _ => False

end TagPiece

/-- Nothing between the name of a tag and its end looks like an end. -/
structure ShowsEnd (pieces : List TagPiece) (selfClosing : Bool) : Prop where
  noEnd : ∀ piece ∈ pieces, ¬ piece.HoldsEnd
  noSlash : selfClosing = false → ∀ last, pieces.getLast? = some last → ¬ last.EndsInSlash

section Pieces

variable {name equals text left rest : List Char} {piece : TagPiece} {pieces : List TagPiece}

theorem notMem_of_isAttributeName (isName : IsAttributeName name) {c : Char}
    (foreign : isAttributeNameChar c = false) : c ∉ name := by
  intro member
  have inName := isName.2 c member
  rw [foreign] at inName
  contradiction

theorem IsEquals.blank_or_eq (isEquals : IsEquals equals) {c : Char} (member : c ∈ equals) :
    isMarkupBlank c = true ∨ c = '=' := by
  obtain ⟨before, after, rfl, blankBefore, blankAfter⟩ := isEquals
  rcases List.mem_append.1 member with inBefore | inRest
  · exact .inl (blankBefore c inBefore)
  · rcases List.mem_cons.1 inRest with isSign | inAfter
    · exact .inr isSign
    · exact .inl (blankAfter c inAfter)

theorem IsEquals.notMem (isEquals : IsEquals equals) {c : Char}
    (notBlank : isMarkupBlank c = false) (other : c ≠ '=') : c ∉ equals := by
  intro member
  rcases isEquals.blank_or_eq member with blank | sign
  · rw [notBlank] at blank
    contradiction
  · exact other sign

/-- A piece has a `>` in its quoted value or none at all. -/
theorem TagPiece.mem_text_iff (fits : piece.Fits left) : '>' ∈ piece.text ↔ piece.HoldsEnd := by
  cases piece with
  | skipped mark =>
      rw [text, List.mem_singleton]
      refine ⟨?_, False.elim⟩
      rintro rfl
      rcases fits with blank | sign | ⟨slash, -⟩ <;> contradiction
  | flag name =>
      exact ⟨fun member => absurd member (notMem_of_isAttributeName fits.1 rfl), False.elim⟩
  | bare name equals value =>
      obtain ⟨isName, isEquals, isValue, -⟩ := fits
      rw [text, List.mem_append, List.mem_append]
      refine ⟨?_, False.elim⟩
      rintro (inName | inEquals | inValue)
      · exact notMem_of_isAttributeName isName rfl inName
      · exact isEquals.notMem rfl (by decide) inEquals
      · exact absurd (isValue '>' inValue) (by decide)
  | quoted name equals quote value =>
      obtain ⟨isName, isEquals, isQuote, -⟩ := fits
      have notQuote : '>' ≠ quote := by
        rintro rfl
        rcases isQuote with isDouble | isSingle <;> contradiction
      rw [text, List.mem_append, List.mem_append, List.mem_cons, List.mem_append,
        List.mem_singleton]
      constructor
      · rintro (inName | inEquals | isQuote | inValue | isQuote)
        · exact absurd inName (notMem_of_isAttributeName isName rfl)
        · exact absurd inEquals (isEquals.notMem rfl (by decide))
        · exact absurd isQuote notQuote
        · exact inValue
        · exact absurd isQuote notQuote
      · exact fun inValue => .inr (.inr (.inr (.inl inValue)))

theorem TagPiece.text_ne_nil (fits : piece.Fits left) : piece.text ≠ [] := by
  cases piece with
  | skipped mark => exact List.cons_ne_nil _ _
  | flag name => exact fits.1.1
  | bare name equals value => exact List.append_ne_nil_of_left_ne_nil fits.1.1 _
  | quoted name equals quote value => exact List.append_ne_nil_of_left_ne_nil fits.1.1 _

/-- Before a `>` a piece ends in a slash only with its value. -/
theorem TagPiece.getLast?_text_iff (fits : piece.Fits ('>' :: left)) :
    piece.text.getLast? = some '/' ↔ piece.EndsInSlash := by
  cases piece with
  | skipped mark =>
      rw [text, List.getLast?_singleton, Option.some.injEq]
      refine ⟨?_, False.elim⟩
      rintro rfl
      rcases fits with blank | sign | ⟨-, noEnd⟩
      · contradiction
      · contradiction
      · exact noEnd rfl
  | flag name =>
      refine ⟨?_, False.elim⟩
      intro ends
      exact notMem_of_isAttributeName fits.1 rfl (List.mem_of_getLast? ends)
  | bare name equals value =>
      obtain ⟨isName, isEquals, -⟩ := fits
      rw [text, EndsInSlash, List.getLast?_append, List.getLast?_append]
      cases last : value.getLast? with
      | some c => rfl
      | none =>
          rw [Option.none_or]
          refine ⟨?_, fun isLast => absurd isLast (Option.some_ne_none _).symm⟩
          intro ends
          rcases Option.or_eq_some_iff.1 ends with inEquals | ⟨-, inName⟩
          · exact absurd (List.mem_of_getLast? inEquals) (isEquals.notMem rfl (by decide))
          · exact absurd (List.mem_of_getLast? inName) (notMem_of_isAttributeName isName rfl)
  | quoted name equals quote value =>
      obtain ⟨-, -, isQuote, -⟩ := fits
      have whole : (quoted name equals quote value).text =
          (name ++ (equals ++ quote :: value)) ++ [quote] := by
        simp only [text, List.append_assoc, List.cons_append]
      rw [whole, List.getLast?_concat, Option.some.injEq]
      refine ⟨?_, False.elim⟩
      rintro rfl
      rcases isQuote with isDouble | isSingle <;> contradiction

theorem IsWritten.mem_iff (written : IsWritten text pieces rest) :
    '>' ∈ pieces.flatMap TagPiece.text ↔ ∃ piece ∈ pieces, piece.HoldsEnd := by
  induction written with
  | nothing => simp
  | piece fits _ inductionHypothesis =>
      rw [List.flatMap_cons, List.mem_append, inductionHypothesis, TagPiece.mem_text_iff fits,
        List.exists_mem_cons_iff]

theorem IsWritten.getLast?_iff (written : IsWritten text pieces ('>' :: left)) :
    (pieces.flatMap TagPiece.text).getLast? = some '/' ↔
      ∃ last, pieces.getLast? = some last ∧ last.EndsInSlash := by
  generalize behind : '>' :: left = rest at written
  induction written with
  | nothing => simp
  | @piece first pieces inner rest fits further inductionHypothesis =>
      rw [List.flatMap_cons, List.getLast?_append]
      cases pieces with
      | nil =>
          cases further
          subst behind
          rw [List.flatMap_nil, List.getLast?_nil, Option.none_or, TagPiece.getLast?_text_iff fits]
          simp
      | cons second others =>
          have nonempty : (second :: others).flatMap TagPiece.text ≠ [] := by
            cases further with
            | piece secondFits =>
                rw [List.flatMap_cons]
                exact List.append_ne_nil_of_left_ne_nil (TagPiece.text_ne_nil secondFits) _
          obtain ⟨last, isLast⟩ := Option.ne_none_iff_exists'.1
            (mt List.getLast?_eq_none_iff.1 nonempty)
          rw [List.getLast?_cons_cons, ← inductionHypothesis behind, isLast]
          rfl

end Pieces

/-! ## Two readers of an opening tag -/

/-- An opening tag is read as at top level. -/
def asOpenTag : TagReader := fun rest =>
  match readOpenTag rest with
  | .ok (tag, left) => some (tag.selfClosing, left)
  | .error _ => none

/-- Behind its `<` a tag is written as a name and pieces up to its end, none of which looks
like an end. -/
def IsPlainTag (rest : List Char) (tag : OpenTag) (left : List Char) : Prop :=
  ∃ pieces, IsWritten (rest.dropWhile isTagNameChar) pieces (tagEnd tag.selfClosing ++ left) ∧
    ShowsEnd pieces tag.selfClosing

section Tags

variable {name rest left : List Char} {tag : OpenTag} {pieces : List TagPiece}

theorem asOpenTag_of_read (read : readOpenTag rest = .ok (tag, left)) :
    asOpenTag rest = some (tag.selfClosing, left) := by
  unfold asOpenTag
  rw [read]

theorem exists_of_asOpenTag {selfClosing : Bool} (read : asOpenTag rest = some (selfClosing, left)) :
    ∃ tag, readOpenTag rest = .ok (tag, left) ∧ tag.selfClosing = selfClosing := by
  unfold asOpenTag at read
  split at read
  · rename_i tag behind opened
    cases read
    exact ⟨tag, opened, rfl⟩
  · contradiction

/-- A tag is cut at a `>` when that is the first one, and told by the character before. -/
theorem cutAtEnd_eq_some_iff {front : List Char} (divided : '<' :: rest = front ++ '>' :: left)
    (selfClosing : Bool) :
    cutAtEnd rest = some (selfClosing, left) ↔
      '>' ∉ front ∧ (front.getLast? == some '/') = selfClosing := by
  unfold cutAtEnd endsSelfClosing
  rw [divided]
  constructor
  · intro read
    obtain ⟨⟨tag, behind⟩, cut, isRead⟩ := Option.map_eq_some_iff.1 read
    obtain ⟨isSelfClosing, rfl⟩ := Prod.mk.inj isRead
    have whole := append_of_cutThrough? cut
    rw [List.append_cons] at whole
    obtain rfl := List.append_cancel_right whole
    have onlyEnd := (onlyEnd_of_cutThrough? (List.cons_ne_nil _ _) cut).2
    rw [List.dropLast_concat] at onlyEnd isSelfClosing
    exact ⟨fun member => onlyEnd ((List.singleton_infix_iff _ _).2 member), isSelfClosing⟩
  · intro ⟨notBefore, isSelfClosing⟩
    rw [cutThrough?_concat notBefore, Option.map_some]
    dsimp only
    rw [List.dropLast_concat, isSelfClosing]

/-- A tag is cut at its end, and told whether it closes itself, exactly when none of its
pieces looks like an end. -/
theorem IsWritten.cutAtEnd_iff {selfClosing : Bool}
    (written : IsWritten (rest.dropWhile isTagNameChar) pieces (tagEnd selfClosing ++ left)) :
    cutAtEnd rest = some (selfClosing, left) ↔ ShowsEnd pieces selfClosing := by
  let spelled := '<' :: rest.takeWhile isTagNameChar
  let inner := pieces.flatMap TagPiece.text
  have notSpelled {c : Char} (other : c ≠ '<') (foreign : isTagNameChar c = false) :
      c ∉ spelled := by
    intro member
    rcases List.mem_cons.1 member with isMark | inName
    · exact other isMark
    · have named := List.all_eq_true.1 (@List.all_takeWhile Char isTagNameChar rest) c inName
      rw [foreign] at named
      contradiction
  have whole : '<' :: rest = spelled ++ (inner ++ (tagEnd selfClosing ++ left)) := by
    rw [written.append_eq]
    exact congrArg ('<' :: ·) List.takeWhile_append_dropWhile.symm
  have noEnd : '>' ∉ spelled ++ inner ↔ ∀ piece ∈ pieces, ¬ piece.HoldsEnd := by
    rw [List.mem_append, or_iff_right (notSpelled (by decide) (by decide)), written.mem_iff]
    simp
  cases selfClosing with
  | true =>
      have divided : '<' :: rest = (spelled ++ (inner ++ ['/'])) ++ '>' :: left := by
        rw [whole]
        simp only [tagEnd, List.append_assoc]
        rfl
      have sameEnd : '>' ∉ spelled ++ (inner ++ ['/']) ↔ '>' ∉ spelled ++ inner := by simp
      rw [cutAtEnd_eq_some_iff divided, sameEnd, noEnd, ← List.append_assoc, List.getLast?_concat]
      exact ⟨fun ⟨noEnd, _⟩ => ⟨noEnd, nofun⟩, fun shows => ⟨shows.noEnd, rfl⟩⟩
  | false =>
      have divided : '<' :: rest = (spelled ++ inner) ++ '>' :: left := by
        rw [whole, List.append_assoc]
        rfl
      have lastOf : (spelled ++ inner).getLast? = some '/' ↔ inner.getLast? = some '/' := by
        rw [List.getLast?_append]
        cases inner.getLast? with
        | some c => rfl
        | none =>
            rw [Option.none_or]
            refine ⟨fun ends => ?_, nofun⟩
            exact absurd (List.mem_of_getLast? ends) (notSpelled (by decide) (by decide))
      have noSlash : ((spelled ++ inner).getLast? == some '/') = false ↔
          ∀ last, pieces.getLast? = some last → ¬ last.EndsInSlash := by
        rw [beq_eq_false_iff_ne, ne_eq, lastOf, written.getLast?_iff]
        simp
      rw [cutAtEnd_eq_some_iff divided, noEnd, noSlash]
      exact ⟨fun ⟨noEnd, noSlash⟩ => ⟨noEnd, fun _ => noSlash⟩,
        fun shows => ⟨shows.noEnd, shows.noSlash rfl⟩⟩

/-- A tag that is read at top level is taken for the same inside a content exactly when it
is plain. -/
theorem cutAtEnd_eq_iff (read : readOpenTag rest = .ok (tag, left)) :
    cutAtEnd rest = some (tag.selfClosing, left) ↔ IsPlainTag rest tag left := by
  have written := writtenAs_readAttributes (String.ofList (rest.takeWhile isTagNameChar)) ∅
    (rest.dropWhile isTagNameChar)
  unfold readOpenTag at read
  rw [read] at written
  obtain ⟨pieces, inside, -, -⟩ := written
  constructor
  · exact fun cut => ⟨pieces, inside, inside.cutAtEnd_iff.1 cut⟩
  · exact fun ⟨_, written, shows⟩ => written.cutAtEnd_iff.2 shows

/-- The search goes on behind a tag, one element deeper unless the tag closes itself. -/
def TakenAs (name : List Char) (depth : Nat) (rest : List Char) (tag : OpenTag)
    (left : List Char) : Prop :=
  ∃ finish, bodyTurn name false depth ('<' :: rest) =
    .goesOn (if tag.selfClosing then depth else depth + 1) left finish

theorem takenAs_iff (isName : IsTagName name) (opens : StartsOpening name ('<' :: rest))
    (depth : Nat) (tag : OpenTag) (left : List Char) :
    TakenAs name depth rest tag left ↔ cutAtEnd rest = some (tag.selfClosing, left) := by
  unfold TakenAs cutAtEnd
  rw [bodyTurn_of_opening isName opens]
  cases cutThrough? ['>'] ('<' :: rest) with
  | none => simp
  | some cut =>
      obtain ⟨through, behind⟩ := cut
      cases endsSelfClosing through <;> cases tag.selfClosing <;> simp

end Tags

end Markup

/-! ## Contents with inner tags -/

section Contents

open Descriptor

variable {source : String} {before : List Element} {text rest inside : List Char} {tag : OpenTag}

/-- An opening tag that the search for the end of a content gets to, and that can be read at
top level, ends where it ends there and opens an element when it does so there, exactly when
no quoted value of it holds a `>` and it does not end in a bare value that ends in `/`. When
all those tags are such, the content ends at the closing tag that balances its element with
each of them read as at top level, and the end tag is missing exactly when there is none. -/
theorem Markup.innerTags_read_as_openTags_iff (options : ParseOptions) (file : Path)
    (reaches : Reaches source before text) (once : OncePerSlot (before.map (·.tag.name)))
    (found : toNextTag text = '<' :: rest) (opened : readOpenTag rest = .ok (tag, inside))
    (opens : tag.selfClosing = false) (nests : isRaw tag.name = false) :
    let start := Place.before source.toList ('<' :: rest)
    let contentStart := Place.before source.toList inside
    let name := tag.name.toList
    (∀ depth innerRest inner left, MeetsOpening name 0 inside depth innerRest →
      readOpenTag innerRest = .ok (inner, left) →
        (TakenAs name depth innerRest inner left ↔ IsPlainTag innerRest inner left)) ∧
    ((∀ depth innerRest, MeetsOpening name 0 inside depth innerRest →
        ∃ inner left, readOpenTag innerRest = .ok (inner, left) ∧
          IsPlainTag innerRest inner left) →
      (∀ content closing, EndsBalanced name asOpenTag 0 inside content closing →
        Reaches source (before ++ [⟨tag, start, contentStart, String.ofList content⟩])
          (afterFirst ['>'] closing)) ∧
      ((¬ ∃ content closing, EndsBalanced name asOpenTag 0 inside content closing) ↔
        ofSource options file source = .error ⟨.element (.missingEndTag tag.name), start⟩)) := by
  intro start contentStart name
  have isName : IsTagName name := isTagName_of_readOpenTag found opened
  refine ⟨?_, ?_⟩
  · intro depth innerRest inner left meets read
    rw [takenAs_iff isName meets.1, cutAtEnd_eq_iff read]
  · intro plain
    have agrees : AgreesOnMet name asOpenTag 0 inside := by
      intro depth innerRest meets
      obtain ⟨inner, left, read, isPlain⟩ := plain depth innerRest meets
      rw [asOpenTag_of_read read, (cutAtEnd_eq_iff read).2 isPlain]
    have readUpTo (content after : List Char) :
        body? name (isRaw tag.name) 0 inside = some (content, after) ↔
          ∃ closing, EndsBalanced name asOpenTag 0 inside content closing ∧
            after = afterFirst ['>'] closing := by
      rw [nests, body?_eq_some_iff isName]
      simp only [agrees.endsBalanced_iff isName]
    refine ⟨?_, ?_⟩
    · intro content closing ends
      exact reaches.next (.content found opened opens ((readUpTo content _).2 ⟨closing, ends, rfl⟩))
    · rw [← reaches.missingEndTag_iff options file once found opened opens,
        Option.eq_none_iff_forall_not_mem]
      constructor
      · intro nowhere ⟨content, after⟩ read
        obtain ⟨closing, ends, -⟩ := (readUpTo content after).1 read
        exact nowhere ⟨content, closing, ends⟩
      · intro unread ⟨content, closing, ends⟩
        exact unread _ ((readUpTo content _).2 ⟨closing, ends, rfl⟩)

/-- A template with one template in it, whose opening tag has these attributes. -/
def nestedSource (attributes : String) : String :=
  "<template><template" ++ attributes ++ "></template></template>"

/-- What follows the opening tag of the outer template. -/
def insideNested (attributes : String) : List Char :=
  (nestedSource attributes).toList.drop 10

/-- The content of the outer template is the inner one with its inner tag read as at top
level. -/
theorem endsBalanced_nested {inside innerRest tag : List Char} (begun : inside = '<' :: innerRest)
    (divided : tag ++ "</template></template>".toList = '<' :: innerRest)
    (opens : startsWithTag "template".toList innerRest = true)
    (read : asOpenTag innerRest = some (false, "</template></template>".toList)) :
    EndsBalanced "template".toList asOpenTag 0 inside (tag ++ "</template>".toList)
      "</template>".toList := by
  have closes : StartsClosing "template".toList "</template>".toList :=
    (startsClosing_iff _ _).2 ⟨"template>".toList, by decide +kernel⟩
  have closesInner : StartsClosing "template".toList "</template></template>".toList :=
    (startsClosing_iff _ _).2 ⟨"template></template>".toList, by decide +kernel⟩
  have isLeft : "</template></template>".toList =
      '<' :: ("/template>".toList ++ "</template>".toList) := by decide +kernel
  have front : "</template>".toList = '<' :: "/template>".toList := by decide +kernel
  have ends := endsBalanced_element ((startsOpening_iff _ _).2 opens) read divided isLeft
    closesInner (by decide +kernel) closes
  rw [← begun, ← front] at ends
  exact ends

theorem Markup.innerTags_read_as_openTags_iff_bare_value :
    Reaches (nestedSource " a=b")
      ([] ++ [⟨⟨"template", ∅, false⟩, ⟨0, 0⟩, ⟨10, 0⟩, "<template a=b></template>"⟩]) [] := by
  let source := nestedSource " a=b"
  let inside := insideNested " a=b"
  have found : toNextTag source.toList = '<' :: source.toList.tail := by decide +kernel
  have opened : readOpenTag source.toList.tail = .ok (⟨"template", ∅, false⟩, inside) := by
    decide +kernel
  have plain : ∀ depth innerRest, MeetsOpening "template".toList 0 inside depth innerRest →
      ∃ inner left, readOpenTag innerRest = .ok (inner, left) ∧
        IsPlainTag innerRest inner left := by
    intro depth innerRest meets
    have agree : ∀ behind ∈ inside.tails, startsWithTag "template".toList behind.tail = true →
        asOpenTag behind.tail ≠ none ∧ cutAtEnd behind.tail = asOpenTag behind.tail := by
      decide +kernel
    obtain ⟨isRead, sameCut⟩ := agree ('<' :: innerRest) ((List.mem_tails _ _).2 meets.suffix)
      ((startsOpening_iff _ _).1 meets.1)
    rw [List.tail_cons] at isRead sameCut
    obtain ⟨⟨selfClosing, left⟩, isRead⟩ := Option.ne_none_iff_exists'.1 isRead
    obtain ⟨inner, read, rfl⟩ := exists_of_asOpenTag isRead
    exact ⟨inner, left, read, (cutAtEnd_eq_iff read).1 (sameCut.trans isRead)⟩
  have ended := ((innerTags_read_as_openTags_iff {} ⟨"App.vue"⟩ Reaches.start
    (fun _ _ => Nat.zero_le _) found opened rfl (by decide)).2 plain).1
  have begun : inside = '<' :: inside.tail := by decide +kernel
  have divided : "<template a=b>".toList ++ "</template></template>".toList =
      '<' :: inside.tail := by
    decide +kernel
  have reaches := ended _ _ (endsBalanced_nested begun divided (by decide +kernel)
    (by decide +kernel))
  have start : Place.before source.toList ('<' :: source.toList.tail) = ⟨0, 0⟩ := by
    decide +kernel
  have contentStart : Place.before source.toList inside = ⟨10, 0⟩ := by decide +kernel
  have content : String.ofList ("<template a=b>".toList ++ "</template>".toList) =
      "<template a=b></template>" := by
    decide +kernel
  have left : afterFirst ['>'] "</template>".toList = [] := by decide +kernel
  rw [start, contentStart, content, left] at reaches
  exact reaches

/-- The inner template is not taken for what it is at top level, and the content of the outer
one is not the one that this gives. -/
def MisreadsInner (attributes : String) : Prop :=
  ∃ rest inside innerRest inner left content,
    toNextTag (nestedSource attributes).toList = '<' :: rest ∧
    readOpenTag rest = .ok (⟨"template", ∅, false⟩, inside) ∧
    MeetsOpening "template".toList 0 inside 0 innerRest ∧
    readOpenTag innerRest = .ok (inner, left) ∧
    ¬ TakenAs "template".toList 0 innerRest inner left ∧
    EndsBalanced "template".toList asOpenTag 0 inside content "</template>".toList ∧
    ∀ element ∈ (elementsOf (nestedSource attributes)).elements,
      element.content.toList ≠ content

theorem misreadsInner_of_mem {attributes : String} (member : attributes ∈ [" a=\"/>\"", " a=b/"]) :
    MisreadsInner attributes := by
  have isName : IsTagName "template".toList := isTagName_of_readOpenTag
    (show toNextTag "<template>".toList = '<' :: "template>".toList by decide +kernel)
    (show readOpenTag "template>".toList = .ok (⟨"template", ∅, false⟩, []) by decide +kernel)
  let inside := insideNested attributes
  have facts : ∀ attributes ∈ [" a=\"/>\"", " a=b/"],
      toNextTag (nestedSource attributes).toList = '<' :: (nestedSource attributes).toList.tail ∧
      readOpenTag (nestedSource attributes).toList.tail =
        .ok (⟨"template", ∅, false⟩, insideNested attributes) ∧
      insideNested attributes = '<' :: (insideNested attributes).tail ∧
      ("<template" ++ attributes ++ ">").toList ++ "</template></template>".toList =
        '<' :: (insideNested attributes).tail ∧
      startsWithTag "template".toList (insideNested attributes).tail = true ∧
      asOpenTag (insideNested attributes).tail = some (false, "</template></template>".toList) ∧
      cutAtEnd (insideNested attributes).tail ≠ some (false, "</template></template>".toList) ∧
      ∀ element ∈ (elementsOf (nestedSource attributes)).elements,
        element.content.toList ≠
          ("<template" ++ attributes ++ ">").toList ++ "</template>".toList := by
    decide +kernel
  obtain ⟨found, opened, begun, divided, opens, read, misread, truncated⟩ := facts attributes member
  have starts := (startsOpening_iff _ _).2 opens
  obtain ⟨inner, openRead, closesItself⟩ := exists_of_asOpenTag read
  refine ⟨_, inside, inside.tail, inner, _, _, found, opened, ⟨starts, 0, ?_⟩, openRead, ?_,
    endsBalanced_nested begun divided opens read, truncated⟩
  · rw [← begun]
    rfl
  · rw [takenAs_iff isName starts, closesItself]
    exact misread

/-- A quoted value with a `>` in it and a bare value that ends in `/` hide where the tag
ends, and the content of the outer template ends too early. -/
theorem Markup.innerTags_read_otherwise :
    MisreadsInner " a=\"/>\"" ∧ MisreadsInner " a=b/" :=
  ⟨misreadsInner_of_mem List.mem_cons_self,
    misreadsInner_of_mem (List.mem_cons_of_mem _ List.mem_cons_self)⟩

end Contents

end VirtualBlocks
