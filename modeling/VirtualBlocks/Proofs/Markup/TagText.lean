import VirtualBlocks.Proofs.Markup.Written

/-!
Contract: how the inside of an opening tag is written.

Owns:
- the pieces between the name of a tag and its end: attributes with and without a
  value, and characters that are skipped;
- that a tag is read piece by piece, each attribute from its piece, through the end of
  the tag;
- that a tag without an end is pieces through the end of the text, or pieces and then an
  attribute whose quotes are not closed.

Does not own: attributes that are written to be read back (`Proofs.Markup.Written`).
-/

namespace VirtualBlocks.Markup

open VirtualBlocks.Text

/-! ## Pieces -/

/-- A piece of the inside of an opening tag. `equals` is the equals sign between a name and
its value with the blanks around it. -/
inductive TagPiece where
  | skipped (mark : Char)
  | flag (name : List Char)
  | bare (name equals value : List Char)
  | quoted (name equals : List Char) (quote : Char) (value : List Char)

/-- The name of an attribute. -/
def IsAttributeName (name : List Char) : Prop :=
  name ≠ [] ∧ ∀ c ∈ name, isAttributeNameChar c = true

def IsBlankText (text : List Char) : Prop :=
  ∀ c ∈ text, isMarkupBlank c = true

/-- An equals sign with blanks around it. -/
def IsEquals (text : List Char) : Prop :=
  ∃ before after, text = before ++ '=' :: after ∧ IsBlankText before ∧ IsBlankText after

def IsQuote (c : Char) : Prop :=
  c = '"' ∨ c = '\''

/-- A text does not start with a character of a class. -/
def StopsBefore (isIn : Char → Bool) (text : List Char) : Prop :=
  ∀ c, text.head? = some c → isIn c = false

namespace TagPiece

def text : TagPiece → List Char
  | skipped mark => [mark]
  | flag name => name
  | bare name equals value => name ++ (equals ++ value)
  | quoted name equals quote value => name ++ (equals ++ quote :: (value ++ [quote]))

/-- The attribute that a piece binds. -/
def binding? : TagPiece → Option (String × Attribute)
  | skipped _ => none
  | flag name => some (String.ofList name, .flag true)
  | bare name _ value => some (String.ofList name, .text (String.ofList value))
  | quoted name _ _ value => some (String.ofList name, .text (String.ofList value))

/-- A piece stands before a text: it is no shorter and no longer than the text admits. -/
def Fits (following : List Char) : TagPiece → Prop
  | skipped mark =>
      isMarkupBlank mark = true ∨ mark = '=' ∨ mark = '/' ∧ following.head? ≠ some '>'
  | flag name =>
      IsAttributeName name ∧ StopsBefore isAttributeNameChar following ∧
        (following.dropWhile isMarkupBlank).head? ≠ some '='
  | bare name equals value =>
      IsAttributeName name ∧ IsEquals equals ∧ (∀ c ∈ value, isBareValueChar c = true) ∧
        (∀ c, value.head? = some c → ¬ IsQuote c) ∧ StopsBefore isBareValueChar following ∧
        StopsBefore isMarkupBlank (value ++ following)
  | quoted name equals quote value =>
      IsAttributeName name ∧ IsEquals equals ∧ IsQuote quote ∧ quote ∉ value

end TagPiece

/-- The inside of a tag is written as these pieces, up to the text `rest`. -/
inductive IsWritten : List Char → List TagPiece → List Char → Prop where
  | nothing (rest : List Char) : IsWritten rest [] rest
  | piece {piece : TagPiece} {pieces : List TagPiece} {left rest : List Char}
      (fits : piece.Fits left) (further : IsWritten left pieces rest) :
      IsWritten (piece.text ++ left) (piece :: pieces) rest

def attributesOf (pieces : List TagPiece) : List (String × Attribute) :=
  pieces.filterMap TagPiece.binding?

section Texts

variable {text left rest blanks : List Char} {pieces : List TagPiece}

theorem IsWritten.append_eq (written : IsWritten text pieces rest) :
    pieces.flatMap TagPiece.text ++ rest = text := by
  induction written with
  | nothing => rfl
  | piece _ _ inductionHypothesis =>
      rw [List.flatMap_cons, List.append_assoc, inductionHypothesis]

/-- Blanks before a piece are skipped. -/
theorem IsWritten.behindBlanks (written : IsWritten text pieces rest) (blank : IsBlankText blanks) :
    IsWritten (blanks ++ text) (blanks.map .skipped ++ pieces) rest := by
  induction blanks with
  | nil => exact written
  | cons c others inductionHypothesis =>
      have further := inductionHypothesis (fun other member => blank other (List.mem_cons_of_mem c member))
      exact @IsWritten.piece (.skipped c) _ _ _ (.inl (blank c List.mem_cons_self)) further

theorem attributesOf_blanks (blanks : List Char) (pieces : List TagPiece) :
    attributesOf (blanks.map .skipped ++ pieces) = attributesOf pieces := by
  have nothing : (blanks.map TagPiece.skipped).filterMap TagPiece.binding? = [] := by
    rw [List.filterMap_eq_nil_iff]
    intro piece member
    obtain ⟨c, _, rfl⟩ := List.mem_map.1 member
    rfl
  unfold attributesOf
  rw [List.filterMap_append, nothing, List.nil_append]

theorem isBlankText_takeWhile (text : List Char) : IsBlankText (text.takeWhile isMarkupBlank) :=
  List.all_eq_true.1 List.all_takeWhile

/-- The blanks that a text starts with are skipped. -/
theorem IsWritten.behindFirstBlanks (separated : text.dropWhile isMarkupBlank = left)
    (written : IsWritten left pieces rest) :
    IsWritten text ((text.takeWhile isMarkupBlank).map .skipped ++ pieces) rest := by
  have behind := written.behindBlanks (isBlankText_takeWhile text)
  rw [← separated, List.takeWhile_append_dropWhile] at behind
  exact behind

theorem stopsBefore_dropWhile (isIn : Char → Bool) (text : List Char) :
    StopsBefore isIn (text.dropWhile isIn) := by
  intro c first
  have notIn := List.head?_dropWhile_not isIn text
  rw [first] at notIn
  simpa using notIn

end Texts

/-! ## What is read -/

section Reading

variable {text after : List Char} {name : String} {value : Attribute}

theorem isEquals_of_dropWhile {inner : List Char}
    (separated : text.dropWhile isMarkupBlank = '=' :: inner) :
    ∃ equals, IsEquals equals ∧ text = equals ++ inner.dropWhile isMarkupBlank := by
  refine ⟨text.takeWhile isMarkupBlank ++ '=' :: inner.takeWhile isMarkupBlank,
    ⟨_, _, rfl, isBlankText_takeWhile text, isBlankText_takeWhile inner⟩, ?_⟩
  rw [List.append_assoc, List.cons_append, List.takeWhile_append_dropWhile, ← separated,
    List.takeWhile_append_dropWhile]

/-- A name and the text behind it are a piece, which binds the name to a value, and blanks. -/
def IsPieceOf (name : String) (text : List Char) (value : Attribute) (after : List Char) : Prop :=
  ∃ piece : TagPiece, ∃ blanks, name.toList ++ text = piece.text ++ (blanks ++ after) ∧
    IsBlankText blanks ∧ piece.Fits (blanks ++ after) ∧ piece.binding? = some (name, value)

theorem isPieceOf_flag (isName : IsAttributeName name.toList)
    (stops : StopsBefore isAttributeNameChar text)
    (noEquals : ∀ inner, text.dropWhile isMarkupBlank ≠ '=' :: inner) :
    IsPieceOf name text (.flag true) (text.dropWhile isMarkupBlank) := by
  have whole := @List.takeWhile_append_dropWhile Char isMarkupBlank text
  refine ⟨.flag name.toList, text.takeWhile isMarkupBlank, ?_, isBlankText_takeWhile text, ?_, ?_⟩
  · rw [whole]
    rfl
  · rw [whole]
    refine ⟨isName, stops, ?_⟩
    intro startsEquals
    obtain ⟨inner, separated⟩ := List.head?_eq_some_iff.1 startsEquals
    exact noEquals inner separated
  · exact congrArg (fun other => some (other, Attribute.flag true)) String.ofList_toList

section Values

variable {equals further behind : List Char} {first quote : Char}

theorem isPieceOf_nothing (isName : IsAttributeName name.toList) (isEquals : IsEquals equals) :
    IsPieceOf name (equals ++ []) (.text "") [] := by
  refine ⟨.bare name.toList equals [], [], ?_, nofun, ⟨isName, isEquals, nofun, nofun, nofun, nofun⟩,
    ?_⟩
  · rw [TagPiece.text, List.append_nil, List.append_nil, List.append_nil]
  · exact congrArg (fun other => some (other, Attribute.text "")) String.ofList_toList

theorem isPieceOf_quoted (isName : IsAttributeName name.toList) (isEquals : IsEquals equals)
    (isQuote : IsQuote first) (closing : further.dropWhile (· != first) = quote :: behind) :
    IsPieceOf name (equals ++ first :: further)
      (.text (String.ofList (further.takeWhile (· != first)))) behind := by
  have taken := @List.takeWhile_append_dropWhile Char (· != first) further
  have isClosing : quote = first := by
    have closes := stopsBefore_dropWhile (· != first) further quote
    rw [closing] at closes
    simpa using closes rfl
  rw [closing, isClosing] at taken
  refine ⟨.quoted name.toList equals first (further.takeWhile (· != first)), [], ?_, nofun,
    ⟨isName, isEquals, isQuote, ?_⟩, ?_⟩
  · rw [TagPiece.text, List.nil_append, List.append_assoc, List.append_assoc, List.cons_append,
      List.append_assoc, List.singleton_append, taken]
  · intro member
    have inside := List.all_eq_true.1 (@List.all_takeWhile Char (· != first) further)
    simpa using inside first member
  · exact congrArg (fun other => some (other, _)) String.ofList_toList

theorem isPieceOf_bare (isName : IsAttributeName name.toList) (isEquals : IsEquals equals)
    (noQuote : ¬ IsQuote first) (notBlank : StopsBefore isMarkupBlank (first :: further)) :
    IsPieceOf name (equals ++ first :: further)
      (.text (String.ofList ((first :: further).takeWhile isBareValueChar)))
      ((first :: further).dropWhile isBareValueChar) := by
  have taken := @List.takeWhile_append_dropWhile Char isBareValueChar (first :: further)
  refine ⟨.bare name.toList equals ((first :: further).takeWhile isBareValueChar), [], ?_, nofun,
    ⟨isName, isEquals, List.all_eq_true.1 List.all_takeWhile, ?_, ?_, ?_⟩, ?_⟩
  · rw [TagPiece.text, List.nil_append, List.append_assoc, List.append_assoc, taken]
  · intro c isFirst
    rw [List.takeWhile_cons] at isFirst
    split at isFirst
    · cases isFirst
      exact noQuote
    · contradiction
  · exact stopsBefore_dropWhile isBareValueChar (first :: further)
  · rw [List.nil_append, taken]
    exact notBlank
  · exact congrArg (fun other => some (other, _)) String.ofList_toList

end Values

/-- An attribute is read from its piece and the blanks behind it. -/
theorem isPieceOf_readAttribute (isName : IsAttributeName name.toList)
    (stops : StopsBefore isAttributeNameChar text)
    (read : readAttribute name text = .ok (value, after)) : IsPieceOf name text value after := by
  unfold readAttribute at read
  split at read
  · rename_i inner separated
    obtain ⟨equals, isEquals, divided⟩ := isEquals_of_dropWhile separated
    have notBlank := stopsBefore_dropWhile isMarkupBlank inner
    rw [divided]
    split at read
    · rename_i ended
      cases read
      rw [ended]
      exact isPieceOf_nothing isName isEquals
    · rename_i first further begun
      rw [begun] at notBlank ⊢
      split at read
      · rename_i isQuote
        split at read
        · contradiction
        · rename_i closing
          cases read
          exact isPieceOf_quoted isName isEquals isQuote closing
      · rename_i noQuote
        cases read
        exact isPieceOf_bare isName isEquals noQuote notBlank
  · rename_i noEquals
    cases read
    exact isPieceOf_flag isName stops noEquals

/-- The value of an attribute that cannot be read starts with a quote that is not
closed. -/
theorem exists_quote_of_readAttribute {fault : TagFault}
    (unread : readAttribute name text = .error fault) :
    fault = .unterminatedValue name ∧ ∃ equals quote value,
      text = equals ++ quote :: value ∧ IsEquals equals ∧ IsQuote quote ∧ quote ∉ value := by
  unfold readAttribute at unread
  split at unread
  · rename_i inner separated
    obtain ⟨equals, isEquals, divided⟩ := isEquals_of_dropWhile separated
    split at unread
    · contradiction
    · rename_i first further begun
      split at unread
      · rename_i isQuote
        split at unread
        · rename_i unclosed
          cases unread
          rw [begun] at divided
          refine ⟨rfl, equals, first, further, divided, isEquals, isQuote, ?_⟩
          intro member
          have all := List.dropWhile_eq_nil_iff.1 unclosed first member
          simp at all
        · contradiction
      · contradiction
  · contradiction

/-- How the text is written that the attributes of a tag are read from. -/
def WrittenAs (tag : String) (attributes : Table Attribute) (text : List Char) :
    Except TagFault (OpenTag × List Char) → Prop
  | .ok (opened, after) => ∃ pieces,
      IsWritten text pieces (tagEnd opened.selfClosing ++ after) ∧ opened.name = tag ∧
        opened.attributes = attributes.insertAll (attributesOf pieces)
  | .error (.unclosed name) => name = tag ∧ ∃ pieces, IsWritten text pieces []
  | .error (.unterminatedValue name) => ∃ pieces equals quote value,
      IsWritten text pieces (name.toList ++ (equals ++ quote :: value)) ∧
        IsAttributeName name.toList ∧ IsEquals equals ∧ IsQuote quote ∧ quote ∉ value

/-- Pieces before a text that is written in a known way. -/
theorem WrittenAs.behind {tag : String} {attributes bound : Table Attribute}
    {outcome : Except TagFault (OpenTag × List Char)} (front : List TagPiece)
    (prolongs : ∀ {pieces rest}, IsWritten after pieces rest → IsWritten text (front ++ pieces) rest)
    (binds : bound = attributes.insertAll (attributesOf front))
    (written : WrittenAs tag bound after outcome) : WrittenAs tag attributes text outcome := by
  cases outcome with
  | ok read =>
      obtain ⟨pieces, inside, sameName, sameAttributes⟩ := written
      refine ⟨front ++ pieces, prolongs inside, sameName, ?_⟩
      unfold attributesOf at binds sameAttributes ⊢
      rw [sameAttributes, binds, List.filterMap_append]
      exact List.foldl_append.symm
  | error fault =>
      cases fault with
      | unclosed name =>
          obtain ⟨sameName, pieces, inside⟩ := written
          exact ⟨sameName, front ++ pieces, prolongs inside⟩
      | unterminatedValue name =>
          obtain ⟨pieces, equals, quote, value, inside, unclosed⟩ := written
          exact ⟨front ++ pieces, equals, quote, value, prolongs inside, unclosed⟩

theorem isAttributeName_takeWhile {first : Char} (rest : List Char)
    (named : isAttributeNameChar first = true) :
    IsAttributeName (String.ofList ((first :: rest).takeWhile isAttributeNameChar)).toList := by
  rw [String.toList_ofList]
  constructor
  · rw [List.takeWhile_cons_of_pos named]
    exact List.cons_ne_nil _ _
  · exact List.all_eq_true.1 List.all_takeWhile

/-! ## Reading through the end of a tag

The text starts with blanks, and what stands behind them decides what is read. -/

section Readings

variable {tag : String} {attributes : Table Attribute} {first : Char} {further : List Char}
  {outcome : Except TagFault (OpenTag × List Char)}

theorem writtenAs_unclosed (separated : text.dropWhile isMarkupBlank = []) :
    WrittenAs tag attributes text (.error (.unclosed tag)) :=
  ⟨rfl, _, IsWritten.behindFirstBlanks separated (.nothing [])⟩

theorem writtenAs_tagEnd {selfClosing : Bool}
    (separated : text.dropWhile isMarkupBlank = tagEnd selfClosing ++ after) :
    WrittenAs tag attributes text (.ok (⟨tag, attributes, selfClosing⟩, after)) := by
  refine ⟨_, IsWritten.behindFirstBlanks separated (.nothing _), rfl, ?_⟩
  rw [attributesOf_blanks]
  rfl

theorem writtenAs_unread {fault : TagFault}
    (separated : text.dropWhile isMarkupBlank = first :: further)
    (named : isAttributeNameChar first = true)
    (unread : readAttribute (String.ofList ((first :: further).takeWhile isAttributeNameChar))
      ((first :: further).dropWhile isAttributeNameChar) = .error fault) :
    WrittenAs tag attributes text (.error fault) := by
  obtain ⟨rfl, equals, quote, value, divided, unclosed⟩ := exists_quote_of_readAttribute unread
  have whole := @List.takeWhile_append_dropWhile Char isAttributeNameChar (first :: further)
  rw [← whole, divided] at separated
  refine ⟨_, equals, quote, value, IsWritten.behindFirstBlanks ?_ (.nothing _),
    isAttributeName_takeWhile further named, unclosed⟩
  rw [String.toList_ofList]
  exact separated

/-- An attribute is a piece between the blanks that the text starts with and those that are
read with it. -/
theorem WrittenAs.behindAttribute
    (separated : text.dropWhile isMarkupBlank = first :: further)
    (named : isAttributeNameChar first = true)
    (isName : name = String.ofList ((first :: further).takeWhile isAttributeNameChar))
    (read : readAttribute name ((first :: further).dropWhile isAttributeNameChar) =
      .ok (value, after))
    (written : WrittenAs tag (attributes.insert name value) after outcome) :
    WrittenAs tag attributes text outcome := by
  subst isName
  obtain ⟨piece, blanks, divided, blank, fits, binds⟩ :=
    isPieceOf_readAttribute (isAttributeName_takeWhile further named)
      (stopsBefore_dropWhile isAttributeNameChar (first :: further)) read
  rw [String.toList_ofList, List.takeWhile_append_dropWhile, ← separated] at divided
  apply written.behind
    ((text.takeWhile isMarkupBlank).map .skipped ++ piece :: (blanks.map .skipped ++ []))
  · intro pieces rest inside
    have whole := IsWritten.behindFirstBlanks divided (.piece fits (inside.behindBlanks blank))
    rw [List.append_nil, List.append_assoc, List.cons_append]
    exact whole
  · have nothing := attributesOf_blanks blanks []
    unfold attributesOf at nothing
    rw [attributesOf_blanks, attributesOf, List.filterMap_cons_some binds, nothing]
    rfl

/-- What is neither an end nor the start of a name is an equals sign or a lone slash. -/
theorem fits_skipped (separated : text.dropWhile isMarkupBlank = first :: further)
    (noEnd : first ≠ '>') (noSelfClosing : first = '/' → further.head? ≠ some '>')
    (notNamed : ¬ isAttributeNameChar first = true) : (TagPiece.skipped first).Fits further := by
  have notBlank := stopsBefore_dropWhile isMarkupBlank text first (by rw [separated]; rfl)
  unfold isAttributeNameChar at notNamed
  simp only [notBlank, Bool.not_false, Bool.true_and, Bool.and_eq_true, bne_iff_ne,
    not_and_or, not_not] at notNamed
  rcases notNamed with (isEquals | isEnd) | isSlash
  · exact .inr (.inl isEquals)
  · exact absurd isEnd noEnd
  · exact .inr (.inr ⟨isSlash, noSelfClosing isSlash⟩)

theorem WrittenAs.behindSkipped (separated : text.dropWhile isMarkupBlank = first :: further)
    (fits : (TagPiece.skipped first).Fits further)
    (written : WrittenAs tag attributes further outcome) :
    WrittenAs tag attributes text outcome := by
  apply written.behind ((text.takeWhile isMarkupBlank).map .skipped ++ [.skipped first])
  · intro pieces rest inside
    rw [List.append_assoc]
    exact IsWritten.behindFirstBlanks separated (.piece fits inside)
  · rw [attributesOf_blanks]
    rfl

end Readings

/-- A tag is read from the pieces that its inside is written as. -/
theorem writtenAs_readAttributes (tag : String) (attributes : Table Attribute)
    (text : List Char) : WrittenAs tag attributes text (readAttributes tag attributes text) := by
  fun_induction readAttributes tag attributes text with
  | case1 attributes text separated => exact writtenAs_unclosed separated
  | case2 attributes text rest separated =>
      exact @writtenAs_tagEnd _ _ tag attributes false separated
  | case3 attributes text rest separated =>
      exact @writtenAs_tagEnd _ _ tag attributes true separated
  | case4 attributes text first rest _ _ separated named name fault unread =>
      exact writtenAs_unread separated named unread
  | case5 attributes text first rest _ _ separated named name value after read
      inductionHypothesis =>
      exact inductionHypothesis.behindAttribute separated named rfl read
  | case6 attributes text first rest noEnd noSelfClosing separated notNamed inductionHypothesis =>
      have noEndBehind : first = '/' → rest.head? ≠ some '>' := by
        intro isSlash startsEnd
        obtain ⟨further, divided⟩ := List.head?_eq_some_iff.1 startsEnd
        exact noSelfClosing further isSlash divided
      exact inductionHypothesis.behindSkipped separated
        (fits_skipped separated noEnd noEndBehind notNamed)

end Reading

end VirtualBlocks.Markup
