import VirtualBlocks.Json.Token

/-!
Contract: the tokens of a written JSON value.

Owns:
- the values that the library writes, in which every number is a natural one;
- the tokens of a value, in the order in which they are written;
- a text that reads as given tokens, whatever follows that does not go on with
  a number;
- the quoted form of a text as one token, with every escape undone, and without
  control characters;
- the compact and the indented form of a value as its tokens: indentation stands
  between two of them only.

Does not own: the value that tokens stand for (`Proofs.Json.RoundTrip`).
-/

namespace VirtualBlocks.Json

/-- The values that the library writes: every number in them is a natural one. -/
inductive IsPlain : Json → Prop
  | null : IsPlain .null
  | bool (value : Bool) : IsPlain (.bool value)
  | number (value : Nat) : IsPlain (.number (toString value))
  | text (content : Quoted) : IsPlain (.text content)
  | array {items : List Json} (all : ∀ item ∈ items, IsPlain item) : IsPlain (.array items)
  | object {fields : List (Quoted × Json)} (all : ∀ field ∈ fields, IsPlain field.2) :
      IsPlain (.object fields)

mutual

/-- The tokens of a value. -/
def tokens : Json → List Token
  | .null => [.null]
  | .bool value => [.bool value]
  | .number literal => [.number literal]
  | .text content => [.text content]
  | .array [] => [.openArray, .closeArray]
  | .array (item :: rest) => .openArray :: (tokens item ++ itemTokens rest)
  | .object [] => [.openObject, .closeObject]
  | .object ((key, value) :: rest) =>
      .openObject :: .text key :: .colon :: (tokens value ++ fieldTokens rest)

/-- The tokens of the items that follow the first one, and of the end. -/
def itemTokens : List Json → List Token
  | [] => [.closeArray]
  | item :: rest => .comma :: (tokens item ++ itemTokens rest)

/-- The tokens of the fields that follow the first one, and of the end. -/
def fieldTokens : List (Quoted × Json) → List Token
  | [] => [.closeObject]
  | (key, value) :: rest =>
      .comma :: .text key :: .colon :: (tokens value ++ fieldTokens rest)

end

/-! ## Texts that read as tokens -/

/-- A character that goes on with a number. -/
def continuesNumber (c : Char) : Bool :=
  c.isDigit || c == '.' || c == 'e' || c == 'E'

/-- Behind a text that starts like this, a number has ended. -/
def EndsNumber (rest : List Char) : Prop :=
  ∀ c, rest.head? = some c → continuesNumber c = false

theorem endsNumber_nil : EndsNumber [] := nofun

theorem endsNumber_cons {c : Char} (other : continuesNumber c = false) (rest : List Char) :
    EndsNumber (c :: rest) := by
  intro first isFirst
  cases isFirst
  exact other

theorem tokens?_eq (text : List Char) :
    tokens? text =
      match text.dropWhile isSpace with
      | [] => some []
      | first :: rest =>
          (nextToken? (first :: rest)).bind (fun read => (tokens? read.2).map (read.1 :: ·)) := by
  rw [tokens?]
  split
  · rename_i spaces
    rw [spaces]
  · rename_i first rest spaces
    rw [spaces]
    split
    · rename_i unread
      simp [unread]
    · rename_i token after read
      simp [read]

theorem tokens?_space {c : Char} (isBlank : isSpace c = true) (rest : List Char) :
    tokens? (c :: rest) = tokens? rest := by
  rw [tokens?_eq, tokens?_eq, List.dropWhile_cons_of_pos isBlank]

theorem tokens?_of_nextToken? {c : Char} {rest after : List Char} {token : Token}
    (notBlank : isSpace c = false) (read : nextToken? (c :: rest) = some (token, after)) :
    tokens? (c :: rest) = (tokens? after).map (token :: ·) := by
  rw [tokens?_eq, List.dropWhile_cons_of_neg (by simp [notBlank])]
  simp [read]

/-- A text reads as these tokens, and what follows it reads as it does alone. -/
def ReadsAs (text : List Char) (read : List Token) : Prop :=
  ∀ rest, EndsNumber rest → tokens? (text ++ rest) = (tokens? rest).map (read ++ ·)

/-- A text ends a number before it. -/
def Separates (text : List Char) : Prop :=
  ∀ rest, EndsNumber (text ++ rest)

theorem separates_cons {c : Char} (other : continuesNumber c = false) (text : List Char) :
    Separates (c :: text) :=
  fun rest => endsNumber_cons other (text ++ rest)

namespace ReadsAs

theorem nil : ReadsAs [] [] := by
  intro rest _
  simp

/-- A token at the start of a text. -/
theorem cons {c : Char} (piece : List Char) {text : List Char} {token : Token}
    {read : List Token} (notBlank : isSpace c = false)
    (isToken : ∀ rest, nextToken? (c :: (piece ++ rest)) = some (token, rest))
    (further : ReadsAs text read) : ReadsAs (c :: (piece ++ text)) (token :: read) := by
  intro rest ends
  rw [List.cons_append, List.append_assoc, tokens?_of_nextToken? notBlank (isToken _),
    further rest ends, Option.map_map]
  rfl

/-- A token of one character. -/
theorem mark {c : Char} {text : List Char} {token : Token} {read : List Token}
    (notBlank : isSpace c = false)
    (isToken : ∀ rest, nextToken? (c :: rest) = some (token, rest))
    (further : ReadsAs text read) : ReadsAs (c :: text) (token :: read) :=
  cons [] notBlank isToken further

theorem space {c : Char} {text : List Char} {read : List Token} (isBlank : isSpace c = true)
    (further : ReadsAs text read) : ReadsAs (c :: text) read := by
  intro rest ends
  rw [List.cons_append, tokens?_space isBlank]
  exact further rest ends

theorem append {left right : List Char} {leftRead rightRead : List Token}
    (first : ReadsAs left leftRead) (second : ReadsAs right rightRead)
    (apart : Separates right) : ReadsAs (left ++ right) (leftRead ++ rightRead) := by
  intro rest ends
  rw [List.append_assoc, first _ (apart rest), second rest ends, Option.map_map]
  apply congrFun (congrArg Option.map _)
  funext others
  simp

theorem indentation (level : Nat) {text : List Char} {read : List Token}
    (further : ReadsAs text read) : ReadsAs (Json.indentation level ++ text) read := by
  have blanks : ∀ count, ReadsAs (List.replicate count ' ' ++ text) read := by
    intro count
    induction count with
    | zero => exact further
    | succ count inductionHypothesis => exact inductionHypothesis.space (by decide)
  exact (blanks (2 * level)).space (by decide)

end ReadsAs

/-! ## Quoted texts -/

theorem hexDigitValue?_lowerHexDigit :
    ∀ value < 16, hexDigitValue? (lowerHexDigit value) = some value := by
  decide

/-- The escape of a control character is the number of that character. -/
theorem codeUnit?_control {c : Char} (control : c < ' ') :
    codeUnit? '0' '0' (lowerHexDigit (c.toNat / 16)) (lowerHexDigit (c.toNat % 16)) =
      some c.toNat := by
  have small : c.toNat < 32 := UInt32.lt_iff_toNat_lt.1 control
  have zero : hexDigitValue? '0' = some 0 := by decide
  unfold codeUnit?
  rw [zero, hexDigitValue?_lowerHexDigit _ (by omega), hexDigitValue?_lowerHexDigit _ (by omega)]
  simp only [Option.some.injEq]
  omega

/-- No control characters stand in a text. -/
def IsOneLine (text : List Char) : Prop :=
  ∀ c ∈ text, ' ' ≤ c

instance (text : List Char) : Decidable (IsOneLine text) :=
  List.decidableBAll (fun c => ' ' ≤ c) text

theorem isOneLine_cons {c : Char} {text : List Char} :
    IsOneLine (c :: text) ↔ ' ' ≤ c ∧ IsOneLine text :=
  List.forall_mem_cons

theorem isOneLine_append {left right : List Char} :
    IsOneLine (left ++ right) ↔ IsOneLine left ∧ IsOneLine right :=
  List.forall_mem_append

theorem IsOneLine.lineFeed_notMem {text : List Char} (oneLine : IsOneLine text) : '\n' ∉ text :=
  fun member => absurd (oneLine _ member) (by decide)

theorem isOneLine_escapeChar (c : Char) : IsOneLine (escapeChar c) := by
  have digits : ∀ value < 16, ' ' ≤ lowerHexDigit value := by decide
  unfold escapeChar
  repeat' split
  any_goals decide
  · rename_i control
    have small : c.toNat < 32 := UInt32.lt_iff_toNat_lt.1 control
    have high := digits (c.toNat / 16) (by omega)
    have low := digits (c.toNat % 16) (by omega)
    simp only [isOneLine_cons, high, low]
    decide
  · rename_i printed
    exact List.forall_mem_singleton.2 (Char.not_lt.1 printed)

theorem isOneLine_quote (content : List Char) : IsOneLine (quote content) := by
  unfold quote
  rw [isOneLine_cons, isOneLine_append]
  refine ⟨by decide, ?_, List.forall_mem_singleton.2 (by decide)⟩
  intro c member
  obtain ⟨escaped, -, inEscape⟩ := List.mem_flatMap.1 member
  exact isOneLine_escapeChar escaped c inEscape

theorem isOneLine_writeQuoted (content : Quoted) : IsOneLine (writeQuoted content) := by
  cases content with
  | none => decide
  | some content => exact isOneLine_quote content.toList

/-- A quoted text stands on one line. -/
theorem lineFeed_notMem_quoted (content : String) : '\n' ∉ (quoted content).toList := by
  unfold quoted
  rw [String.toList_ofList]
  exact (isOneLine_quote content.toList).lineFeed_notMem

/-- A piece stands for a character, and so does what is written for that one. -/
structure Piece.StandsFor (piece : Piece) (c : Char) : Prop where
  pieces? : ∀ text,
    Json.pieces? (escapeChar c ++ text) =
      (Json.pieces? text).map (fun read => (piece :: read.1, read.2))
  ofPieces : ∀ pieces content, Json.ofPieces pieces = some content →
    Json.ofPieces (piece :: pieces) = some (c :: content)

theorem ofPieces_char {c : Char} {pieces : List Piece} {content : List Char}
    (read : ofPieces pieces = some content) :
    ofPieces (.char c :: pieces) = some (c :: content) := by
  simp [ofPieces, read]

theorem ofPieces_unit {c : Char} (noSurrogate : c.toNat < 0xD800) {pieces : List Piece}
    {content : List Char} (read : ofPieces pieces = some content) :
    ofPieces (.unit c.toNat :: pieces) = some (c :: content) := by
  have itself : Char.ofNat c.toNat = c := Char.ofNat_toNat c
  unfold ofPieces
  split
  · contradiction
  · rename_i isChar
    cases isChar
  · rename_i high low rest isUnit
    cases isUnit
    rw [if_neg (by omega), if_neg (by omega), read, itself]
    rfl
  · rename_i code rest _ isUnit
    cases isUnit
    rw [if_neg (by omega), read, itself]
    rfl

theorem standsFor_of_shortEscape {c escape : Char} (notUnicode : escape ≠ 'u')
    (isShort : shortEscape? escape = some c) (written : escapeChar c = ['\\', escape]) :
    (Piece.char c).StandsFor c where
  pieces? text := by
    rw [written]
    show Json.pieces? ('\\' :: escape :: text) = _
    rw [Json.pieces?.eq_def]
    cases read : Json.pieces? text <;> simp [notUnicode, isShort, read]
  ofPieces _ _ := ofPieces_char

theorem standsFor_of_control {c : Char} (control : c < ' ')
    (written : escapeChar c =
      ['\\', 'u', '0', '0', lowerHexDigit (c.toNat / 16), lowerHexDigit (c.toNat % 16)]) :
    (Piece.unit c.toNat).StandsFor c where
  pieces? text := by
    rw [written]
    show Json.pieces? ('\\' :: 'u' :: '0' :: '0' :: _ :: _ :: text) = _
    rw [Json.pieces?, codeUnit?_control control]
    cases read : Json.pieces? text <;> rfl
  ofPieces _ _ := by
    have small : c.toNat < 32 := UInt32.lt_iff_toNat_lt.1 control
    exact ofPieces_unit (by omega)

theorem standsFor_of_plain {c : Char} (notControl : ¬ c < ' ') (notQuote : c ≠ '"')
    (notBackslash : c ≠ '\\') (written : escapeChar c = [c]) : (Piece.char c).StandsFor c where
  pieces? text := by
    rw [written]
    show Json.pieces? (c :: text) = _
    rw [Json.pieces?.eq_def]
    simp [notControl, notBackslash]
  ofPieces _ _ := ofPieces_char

/-- The characters with a short escape. -/
def shortlyEscaped : List Char :=
  ['"', '\\', '\x08', '\x0C', '\n', '\r', '\t']

theorem exists_shortEscape {c : Char} (short : c ∈ shortlyEscaped) :
    ∃ escape, escape ≠ 'u' ∧ shortEscape? escape = some c ∧ escapeChar c = ['\\', escape] := by
  simp only [shortlyEscaped, List.mem_cons, List.not_mem_nil, or_false] at short
  rcases short with rfl | rfl | rfl | rfl | rfl | rfl | rfl
  · exact ⟨'"', by decide⟩
  · exact ⟨'\\', by decide⟩
  · exact ⟨'b', by decide⟩
  · exact ⟨'f', by decide⟩
  · exact ⟨'n', by decide⟩
  · exact ⟨'r', by decide⟩
  · exact ⟨'t', by decide⟩

theorem exists_standsFor (c : Char) : ∃ piece : Piece, piece.StandsFor c := by
  by_cases short : c ∈ shortlyEscaped
  · obtain ⟨escape, notUnicode, isShort, written⟩ := exists_shortEscape short
    exact ⟨_, standsFor_of_shortEscape notUnicode isShort written⟩
  · simp only [shortlyEscaped, List.mem_cons, List.not_mem_nil, or_false, not_or] at short
    by_cases control : c < ' '
    · exact ⟨_, standsFor_of_control control (by simp [escapeChar, short, control])⟩
    · exact ⟨_, standsFor_of_plain control short.1 short.2.1 (by simp [escapeChar, short, control])⟩

/-- What is written for a text is read through its closing quote as that text. -/
theorem exists_pieces_of_quote (content rest : List Char) :
    ∃ pieces, pieces? (content.flatMap escapeChar ++ '"' :: rest) = some (pieces, rest) ∧
      ofPieces pieces = some content := by
  induction content with
  | nil => exact ⟨[], rfl, rfl⟩
  | cons c content inductionHypothesis =>
      obtain ⟨pieces, read, isContent⟩ := inductionHypothesis
      obtain ⟨piece, standsFor⟩ := exists_standsFor c
      refine ⟨piece :: pieces, ?_, standsFor.ofPieces pieces content isContent⟩
      rw [List.flatMap_cons, List.append_assoc, standsFor.pieces?, read]
      rfl

theorem nextToken?_writeQuoted (content : Quoted) (rest : List Char) :
    nextToken? (writeQuoted content ++ rest) = some (.text content, rest) := by
  cases content with
  | none => rfl
  | some content =>
      obtain ⟨pieces, read, isContent⟩ := exists_pieces_of_quote content.toList rest
      have written : writeQuoted (some content) ++ rest =
          '"' :: (content.toList.flatMap escapeChar ++ '"' :: rest) := by
        simp [writeQuoted, quote]
      rw [written, nextToken?, read]
      simp [isContent]

theorem readsAs_writeQuoted (content : Quoted) : ReadsAs (writeQuoted content) [.text content] := by
  obtain ⟨others, written⟩ : ∃ others, writeQuoted content = '"' :: others := by
    cases content with
    | none => exact ⟨_, rfl⟩
    | some content => exact ⟨_, rfl⟩
  have isToken := nextToken?_writeQuoted content
  rw [written] at isToken ⊢
  have alone := ReadsAs.cons others (by decide) isToken .nil
  rwa [List.append_nil] at alone

/-! ## Numbers -/

theorem spanDigits_append {digits rest : List Char} (all : ∀ c ∈ digits, c.isDigit = true)
    (ends : EndsNumber rest) : spanDigits (digits ++ rest) = (digits, rest) := by
  unfold spanDigits
  rw [List.takeWhile_append_of_pos all, List.dropWhile_append_of_pos all]
  cases rest with
  | nil => simp
  | cons c rest =>
      have other := ends c rfl
      simp only [continuesNumber, Bool.or_eq_false_iff] at other
      simp [other]

/-- The digits of a number are a zero alone, or start with another digit. -/
theorem toDigits_eq_zero_or (value : Nat) :
    Nat.toDigits 10 value = ['0'] ∨
      ∃ first others, Nat.toDigits 10 value = first :: others ∧ first ≠ '0' := by
  induction value using Nat.strongRecOn with
  | ind value inductionHypothesis =>
      by_cases small : value < 10
      · rw [Nat.toDigits_of_lt_base small]
        have digits : ∀ digit < 10, [Nat.digitChar digit] = ['0'] ∨
            Nat.digitChar digit ≠ '0' := by
          decide
        exact (digits value small).imp id (fun other => ⟨_, [], rfl, other⟩)
      · right
        rw [Nat.toDigits_of_base_le (by decide) (by omega)]
        rcases inductionHypothesis (value / 10) (by omega) with zero | ⟨first, others, front, other⟩
        · have noDigits := congrArg (fun digits => Nat.ofDigitChars 10 digits 0) zero
          rw [Nat.ofDigitChars_ten_toDigits] at noDigits
          have isZero : value / 10 = 0 := noDigits
          omega
        · exact ⟨first, _, by rw [front]; rfl, other⟩

theorem integerPart?_toDigits (value : Nat) {rest : List Char} (ends : EndsNumber rest) :
    integerPart? (Nat.toDigits 10 value ++ rest) = some (Nat.toDigits 10 value, rest) := by
  have all : ∀ c ∈ Nat.toDigits 10 value, c.isDigit = true := fun c member =>
    Nat.isDigit_of_mem_toDigits (by decide) (by decide) member
  rcases toDigits_eq_zero_or value with zero | ⟨first, others, front, other⟩
  · rw [zero]
    rfl
  · have spanned := spanDigits_append all ends
    rw [front] at spanned ⊢
    rw [List.cons_append] at spanned ⊢
    rw [integerPart?.eq_def]
    simp [other, spanned]

theorem unsigned?_toDigits (value : Nat) {rest : List Char} (ends : EndsNumber rest) :
    unsigned? (Nat.toDigits 10 value ++ rest) = some (Nat.toDigits 10 value, rest) := by
  have noFraction : fractionPart? rest = some ([], rest) := by
    unfold fractionPart?
    split
    · exact absurd (ends '.' rfl) (by decide)
    · rfl
  have noExponent : exponentPart? rest = some ([], rest) := by
    cases rest with
    | nil => rfl
    | cons c rest =>
        have other := ends c rfl
        simp only [continuesNumber, Bool.or_eq_false_iff, beq_eq_false_iff_ne] at other
        simp [exponentPart?, other]
  unfold unsigned?
  rw [integerPart?_toDigits value ends]
  simp [noFraction, noExponent]

theorem nextToken?_toDigits (value : Nat) {rest : List Char} (ends : EndsNumber rest) :
    nextToken? (Nat.toDigits 10 value ++ rest) = some (.number (toString value), rest) := by
  have read := unsigned?_toDigits value ends
  have written : String.ofList (Nat.toDigits 10 value) = toString value := rfl
  obtain ⟨first, others, digits⟩ := List.exists_cons_of_ne_nil (@Nat.toDigits_ne_nil value 10)
  have isDigit : first.isDigit = true :=
    Nat.isDigit_of_mem_toDigits (by decide) (by decide) (digits ▸ List.mem_cons_self)
  rw [digits] at read written ⊢
  rw [List.cons_append] at read ⊢
  have literal : literal? (first :: (others ++ rest)) = some (first :: others, rest) := by
    unfold literal?
    split
    · rename_i isMinus
      cases isMinus
      exact absurd isDigit (by decide)
    · exact read
  unfold nextToken?
  split
  all_goals try
    rename_i isMark
    rw [(List.cons.inj isMark).1] at isDigit
    exact absurd isDigit (by decide)
  rw [literal, Option.map_some, written]

theorem isSpace_of_isDigit {c : Char} (isDigit : c.isDigit = true) : isSpace c = false := by
  rw [Bool.eq_false_iff]
  intro isBlank
  simp only [isSpace, Bool.or_eq_true, beq_iff_eq] at isBlank
  rcases isBlank with ((rfl | rfl) | rfl) | rfl <;> exact absurd isDigit (by decide)

theorem readsAs_toString (value : Nat) :
    ReadsAs (toString value).toList [.number (toString value)] := by
  have written : (toString value).toList = Nat.toDigits 10 value := Nat.toList_repr
  obtain ⟨first, others, digits⟩ := List.exists_cons_of_ne_nil (@Nat.toDigits_ne_nil value 10)
  have isDigit : first.isDigit = true :=
    Nat.isDigit_of_mem_toDigits (by decide) (by decide) (digits ▸ List.mem_cons_self)
  intro rest ends
  have read := nextToken?_toDigits value ends
  rw [written]
  rw [digits, List.cons_append] at read ⊢
  rw [tokens?_of_nextToken? (isSpace_of_isDigit isDigit) read]
  rfl

/-! ## The compact form -/

theorem separates_compactItems (items : List Json) : Separates (compactItems items) := by
  cases items with
  | nil => exact separates_cons (by decide) _
  | cons item rest => exact separates_cons (by decide) _

theorem separates_compactFields (fields : List (Quoted × Json)) :
    Separates (compactFields fields) := by
  cases fields with
  | nil => exact separates_cons (by decide) _
  | cons field rest => exact separates_cons (by decide) _

theorem readsAs_compactItems {items : List Json}
    (each : ∀ item ∈ items, ReadsAs (compact item) item.tokens) :
    ReadsAs (compactItems items) (itemTokens items) := by
  induction items with
  | nil => exact .mark (by decide) (fun _ => rfl) .nil
  | cons item rest inductionHypothesis =>
      obtain ⟨first, others⟩ := List.forall_mem_cons.1 each
      refine .mark (by decide) (fun _ => rfl) ?_
      exact first.append (inductionHypothesis others) (separates_compactItems rest)

/-- A key and the colon behind it. -/
theorem ReadsAs.key (name : Quoted) {text : List Char} {read : List Token}
    (further : ReadsAs text read) :
    ReadsAs (writeQuoted name ++ ':' :: text) (.text name :: .colon :: read) :=
  (readsAs_writeQuoted name).append (.mark (by decide) (fun _ => rfl) further)
    (separates_cons (by decide) text)

theorem readsAs_compactFields {fields : List (Quoted × Json)}
    (each : ∀ field ∈ fields, ReadsAs (compact field.2) field.2.tokens) :
    ReadsAs (compactFields fields) (fieldTokens fields) := by
  induction fields with
  | nil => exact .mark (by decide) (fun _ => rfl) .nil
  | cons field rest inductionHypothesis =>
      obtain ⟨first, others⟩ := List.forall_mem_cons.1 each
      refine .mark (by decide) (fun _ => rfl) (.key field.1 ?_)
      exact first.append (inductionHypothesis others) (separates_compactFields rest)

/-- The compact form of a value reads as its tokens. -/
theorem readsAs_compact {value : Json} (plain : IsPlain value) :
    ReadsAs (compact value) value.tokens := by
  induction plain with
  | null => exact .cons ['u', 'l', 'l'] (by decide) (fun _ => rfl) .nil
  | bool value =>
      cases value with
      | false => exact .cons ['a', 'l', 's', 'e'] (by decide) (fun _ => rfl) .nil
      | true => exact .cons ['r', 'u', 'e'] (by decide) (fun _ => rfl) .nil
  | number value => exact readsAs_toString value
  | text content => exact readsAs_writeQuoted content
  | @array items _ inductionHypothesis =>
      cases items with
      | nil => exact .mark (by decide) (fun _ => rfl) (.mark (by decide) (fun _ => rfl) .nil)
      | cons item rest =>
          obtain ⟨first, others⟩ := List.forall_mem_cons.1 inductionHypothesis
          refine .mark (by decide) (fun _ => rfl) ?_
          exact first.append (readsAs_compactItems others) (separates_compactItems rest)
  | @object fields _ inductionHypothesis =>
      cases fields with
      | nil => exact .mark (by decide) (fun _ => rfl) (.mark (by decide) (fun _ => rfl) .nil)
      | cons field rest =>
          obtain ⟨first, others⟩ := List.forall_mem_cons.1 inductionHypothesis
          refine .mark (by decide) (fun _ => rfl) (.key field.1 ?_)
          exact first.append (readsAs_compactFields others) (separates_compactFields rest)

/-! ## The indented form -/

theorem separates_indentedItems (level : Nat) (items : List Json) :
    Separates (indentedItems level items) := by
  cases items with
  | nil => exact separates_cons (by decide) _
  | cons item rest => exact separates_cons (by decide) _

theorem separates_indentedFields (level : Nat) (fields : List (Quoted × Json)) :
    Separates (indentedFields level fields) := by
  cases fields with
  | nil => exact separates_cons (by decide) _
  | cons field rest => exact separates_cons (by decide) _

section Indented

variable {level : Nat}

theorem ReadsAs.indentedItem {item : Json} {rest : List Json}
    (first : ReadsAs (indented (level + 1) item) item.tokens)
    (further : ReadsAs (indentedItems level rest) (itemTokens rest)) :
    ReadsAs (Json.indentation (level + 1) ++ indented (level + 1) item ++ indentedItems level rest)
      (item.tokens ++ itemTokens rest) := by
  have read := (first.append further (separates_indentedItems level rest)).indentation (level + 1)
  rwa [← List.append_assoc] at read

theorem readsAs_indentedItems {items : List Json}
    (each : ∀ item ∈ items, ReadsAs (indented (level + 1) item) item.tokens) :
    ReadsAs (indentedItems level items) (itemTokens items) := by
  induction items with
  | nil => exact .indentation level (.mark (by decide) (fun _ => rfl) .nil)
  | cons item rest inductionHypothesis =>
      obtain ⟨first, others⟩ := List.forall_mem_cons.1 each
      exact .mark (by decide) (fun _ => rfl) (first.indentedItem (inductionHypothesis others))

theorem ReadsAs.indentedField {field : Quoted × Json} {rest : List (Quoted × Json)}
    (first : ReadsAs (indented (level + 1) field.2) field.2.tokens)
    (further : ReadsAs (indentedFields level rest) (fieldTokens rest)) :
    ReadsAs
      (Json.indentation (level + 1) ++ writeQuoted field.1 ++
        ':' :: ' ' :: indented (level + 1) field.2 ++ indentedFields level rest)
      (.text field.1 :: .colon :: (field.2.tokens ++ fieldTokens rest)) := by
  have value := first.append further (separates_indentedFields level rest)
  have spaced : ReadsAs (' ' :: _) _ := value.space (by decide)
  have read := (ReadsAs.key field.1 spaced).indentation (level + 1)
  simp only [List.append_assoc, List.cons_append]
  exact read

theorem readsAs_indentedFields {fields : List (Quoted × Json)}
    (each : ∀ field ∈ fields, ReadsAs (indented (level + 1) field.2) field.2.tokens) :
    ReadsAs (indentedFields level fields) (fieldTokens fields) := by
  induction fields with
  | nil => exact .indentation level (.mark (by decide) (fun _ => rfl) .nil)
  | cons field rest inductionHypothesis =>
      obtain ⟨first, others⟩ := List.forall_mem_cons.1 each
      exact .mark (by decide) (fun _ => rfl) (first.indentedField (inductionHypothesis others))

end Indented

/-- The indented form of a value reads as its tokens, whatever the level. -/
theorem readsAs_indented {value : Json} (plain : IsPlain value) (level : Nat) :
    ReadsAs (indented level value) value.tokens := by
  induction plain generalizing level with
  | null => exact readsAs_compact .null
  | bool value => exact readsAs_compact (.bool value)
  | number value => exact readsAs_compact (.number value)
  | text content => exact readsAs_compact (.text content)
  | @array items _ inductionHypothesis =>
      have deeper := fun item member => inductionHypothesis item member (level + 1)
      cases items with
      | nil => exact .mark (by decide) (fun _ => rfl) (.mark (by decide) (fun _ => rfl) .nil)
      | cons item rest =>
          obtain ⟨first, others⟩ := List.forall_mem_cons.1 deeper
          exact .mark (by decide) (fun _ => rfl) (first.indentedItem (readsAs_indentedItems others))
  | @object fields _ inductionHypothesis =>
      have deeper := fun field member => inductionHypothesis field member (level + 1)
      cases fields with
      | nil => exact .mark (by decide) (fun _ => rfl) (.mark (by decide) (fun _ => rfl) .nil)
      | cons field rest =>
          obtain ⟨first, others⟩ := List.forall_mem_cons.1 deeper
          exact .mark (by decide) (fun _ => rfl)
            (first.indentedField (readsAs_indentedFields others))

end VirtualBlocks.Json
