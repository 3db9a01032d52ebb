import VirtualBlocks.Json.Basic
import VirtualBlocks.Text.Search

/-!
Contract: the lexical level of JSON.

Owns:
- the tokens: six marks, three words, numbers and quoted texts;
- the number literal, which has no superfluous zero, sign or point;
- the quoted text, whose escapes `\uXXXX` pair up as UTF-16 does;
- the tokens of a text, blanks between them dropped.

A number of any size is a token, and so is a text with half of a surrogate
pair in it: what may be kept is decided where a value is used.
-/

namespace VirtualBlocks.Json

open VirtualBlocks.Text (length_dropWhile_le)

inductive Token where
  | openArray
  | closeArray
  | openObject
  | closeObject
  | colon
  | comma
  | null
  | bool (value : Bool)
  | number (literal : String)
  | text (content : Quoted)
deriving DecidableEq

/-- The four blanks of JSON. -/
def isSpace (c : Char) : Bool :=
  c == ' ' || c == '\n' || c == '\t' || c == '\r'

/-! ## Quoted text -/

/-- A piece of a quoted text: a character, or a code unit given by an escape. -/
inductive Piece where
  | char (c : Char)
  | unit (code : Nat)
deriving DecidableEq

/-- The value of a hexadecimal digit of either case. -/
def hexDigitValue? (c : Char) : Option Nat :=
  if '0' ≤ c ∧ c ≤ '9' then some (c.toNat - 0x30)
  else if 'A' ≤ c ∧ c ≤ 'F' then some (c.toNat - 0x37)
  else if 'a' ≤ c ∧ c ≤ 'f' then some (c.toNat - 0x57)
  else none

/-- The code unit of four hexadecimal digits. -/
def codeUnit? (a b c d : Char) : Option Nat :=
  match hexDigitValue? a, hexDigitValue? b, hexDigitValue? c, hexDigitValue? d with
  | some a, some b, some c, some d => some (((a * 16 + b) * 16 + c) * 16 + d)
  | _, _, _, _ => none

/-- The character that a backslash and one more character stand for. -/
def shortEscape? (c : Char) : Option Char :=
  if c = '"' then some '"'
  else if c = '\\' then some '\\'
  else if c = '/' then some '/'
  else if c = 'b' then some '\x08'
  else if c = 'f' then some '\x0C'
  else if c = 'n' then some '\n'
  else if c = 'r' then some '\r'
  else if c = 't' then some '\t'
  else none

/-- The pieces through the closing quote, and what follows it. A control
character does not stand between quotes. -/
def pieces? : List Char → Option (List Piece × List Char)
  | [] => none
  | '"' :: rest => some ([], rest)
  | '\\' :: 'u' :: a :: b :: c :: d :: rest =>
      match codeUnit? a b c d, pieces? rest with
      | some code, some (pieces, after) => some (.unit code :: pieces, after)
      | _, _ => none
  | '\\' :: escape :: rest =>
      match shortEscape? escape, pieces? rest with
      | some c, some (pieces, after) => some (.char c :: pieces, after)
      | _, _ => none
  | c :: rest =>
      if c < ' ' ∨ c = '\\' then none
      else (pieces? rest).map (fun read => (.char c :: read.1, read.2))

/-- The text of the pieces, where a high and a low surrogate in a row give one
character and any other surrogate gives no text. -/
def ofPieces : List Piece → Option (List Char)
  | [] => some []
  | .char c :: rest => (ofPieces rest).map (c :: ·)
  | .unit high :: .unit low :: rest =>
      if 0xD800 ≤ high ∧ high < 0xDC00 ∧ 0xDC00 ≤ low ∧ low < 0xE000 then
        (ofPieces rest).map
          (Char.ofNat (0x10000 + (high - 0xD800) * 0x400 + (low - 0xDC00)) :: ·)
      else if 0xD800 ≤ high ∧ high < 0xE000 then none
      else (ofPieces (.unit low :: rest)).map (Char.ofNat high :: ·)
  | .unit code :: rest =>
      if 0xD800 ≤ code ∧ code < 0xE000 then none
      else (ofPieces rest).map (Char.ofNat code :: ·)

/-! ## Numbers -/

/-- The leading decimal digits, and what follows them. -/
def spanDigits (text : List Char) : List Char × List Char :=
  (text.takeWhile Char.isDigit, text.dropWhile Char.isDigit)

/-- The digits before the point: a zero alone, or digits that start with
another one. -/
def integerPart? : List Char → Option (List Char × List Char)
  | '0' :: rest => some (['0'], rest)
  | chars =>
      match spanDigits chars with
      | ([], _) => none
      | digits => some digits

/-- The point and the digits behind it, if there is a point. -/
def fractionPart? : List Char → Option (List Char × List Char)
  | '.' :: rest =>
      match spanDigits rest with
      | ([], _) => none
      | (digits, after) => some ('.' :: digits, after)
  | chars => some ([], chars)

/-- The sign that may follow an exponent mark. -/
def exponentSign : List Char → List Char × List Char
  | '+' :: rest => (['+'], rest)
  | '-' :: rest => (['-'], rest)
  | chars => ([], chars)

/-- The exponent mark, its sign and its digits, if there is a mark. -/
def exponentPart? : List Char → Option (List Char × List Char)
  | c :: rest =>
      if c = 'e' ∨ c = 'E' then
        let sign := exponentSign rest
        match spanDigits sign.2 with
        | ([], _) => none
        | (digits, after) => some (c :: (sign.1 ++ digits), after)
      else some ([], c :: rest)
  | [] => some ([], [])

/-- The literal of a number without sign, and what follows it. -/
def unsigned? (text : List Char) : Option (List Char × List Char) :=
  match integerPart? text with
  | none => none
  | some (digits, afterInteger) =>
      match fractionPart? afterInteger with
      | none => none
      | some (fraction, afterFraction) =>
          match exponentPart? afterFraction with
          | none => none
          | some (exponent, after) => some (digits ++ fraction ++ exponent, after)

/-- The literal of a number, and what follows it. -/
def literal? : List Char → Option (List Char × List Char)
  | '-' :: rest => (unsigned? rest).map (fun read => ('-' :: read.1, read.2))
  | chars => unsigned? chars

/-! ## Tokens -/

/-- The token at the start of a text, and what follows it. -/
def nextToken? : List Char → Option (Token × List Char)
  | '[' :: rest => some (.openArray, rest)
  | ']' :: rest => some (.closeArray, rest)
  | '{' :: rest => some (.openObject, rest)
  | '}' :: rest => some (.closeObject, rest)
  | ':' :: rest => some (.colon, rest)
  | ',' :: rest => some (.comma, rest)
  | 'n' :: 'u' :: 'l' :: 'l' :: rest => some (.null, rest)
  | 't' :: 'r' :: 'u' :: 'e' :: rest => some (.bool true, rest)
  | 'f' :: 'a' :: 'l' :: 's' :: 'e' :: rest => some (.bool false, rest)
  | '"' :: rest =>
      (pieces? rest).map
        (fun read => (.text ((ofPieces read.1).map String.ofList), read.2))
  | chars =>
      (literal? chars).map (fun read => (.number (String.ofList read.1), read.2))

/-! ## Progress -/

private theorem length_lt_of_pieces? {chars after : List Char} {pieces : List Piece}
    (read : pieces? chars = some (pieces, after)) : after.length < chars.length := by
  fun_induction pieces? chars generalizing pieces after with
  | case1 => simp at read
  | case2 rest =>
      simp only [Option.some.injEq, Prod.mk.injEq] at read
      simp [← read.2]
  | case3 a b c d rest code inner remaining innerRead codeRead inductionHypothesis =>
      simp only [Option.some.injEq, Prod.mk.injEq] at read
      have shorter := inductionHypothesis innerRead
      rw [← read.2]
      simp only [List.length_cons]
      omega
  | case4 => simp at read
  | case5 escape rest notUnicode c inner remaining innerRead escapeRead inductionHypothesis =>
      simp only [Option.some.injEq, Prod.mk.injEq] at read
      have shorter := inductionHypothesis innerRead
      rw [← read.2]
      simp only [List.length_cons]
      omega
  | case6 => simp at read
  | case7 => simp at read
  | case8 c rest notQuote notUnicode notShort allowed inductionHypothesis =>
      obtain ⟨⟨inner, remaining⟩, innerRead, equal⟩ := Option.map_eq_some_iff.1 read
      simp only [Prod.mk.injEq] at equal
      have shorter := inductionHypothesis innerRead
      rw [← equal.2]
      simp only [List.length_cons]
      omega

private theorem length_spanDigits (chars : List Char) :
    (spanDigits chars).1.length + (spanDigits chars).2.length = chars.length := by
  rw [← List.length_append]
  exact congrArg List.length List.takeWhile_append_dropWhile

private theorem length_lt_of_integerPart? {chars digits after : List Char}
    (read : integerPart? chars = some (digits, after)) : after.length < chars.length := by
  unfold integerPart? at read
  split at read
  · simp only [Option.some.injEq, Prod.mk.injEq] at read
    simp [← read.2]
  · have lengths := length_spanDigits chars
    split at read
    · simp at read
    · rename_i nonempty
      simp only [Option.some.injEq] at read
      rw [read] at lengths nonempty
      have positive : 0 < digits.length :=
        List.length_pos_iff.2 (fun isNil => nonempty after (by rw [isNil]))
      simp only at lengths
      omega

private theorem length_le_of_fractionPart? {chars digits after : List Char}
    (read : fractionPart? chars = some (digits, after)) : after.length ≤ chars.length := by
  unfold fractionPart? at read
  split at read
  · rename_i rest
    have lengths := length_spanDigits rest
    split at read
    · simp at read
    · rename_i spanned
      simp only [Option.some.injEq, Prod.mk.injEq] at read
      rw [spanned] at lengths
      rw [← read.2]
      simp only [List.length_cons] at lengths ⊢
      omega
  · simp only [Option.some.injEq, Prod.mk.injEq] at read
    simp [← read.2]

private theorem length_exponentSign_le (chars : List Char) :
    (exponentSign chars).2.length ≤ chars.length := by
  unfold exponentSign
  split <;> simp

private theorem length_le_of_exponentPart? {chars digits after : List Char}
    (read : exponentPart? chars = some (digits, after)) : after.length ≤ chars.length := by
  unfold exponentPart? at read
  split at read
  · rename_i c rest
    split at read
    · have lengths := length_spanDigits (exponentSign rest).2
      have signLength := length_exponentSign_le rest
      simp only at read
      split at read
      · simp at read
      · rename_i spanned
        simp only [Option.some.injEq, Prod.mk.injEq] at read
        rw [spanned] at lengths
        rw [← read.2]
        simp only [List.length_cons] at lengths ⊢
        omega
    · simp only [Option.some.injEq, Prod.mk.injEq] at read
      simp [← read.2]
  · simp only [Option.some.injEq, Prod.mk.injEq] at read
    simp [← read.2]

private theorem length_lt_of_unsigned? {chars digits after : List Char}
    (read : unsigned? chars = some (digits, after)) : after.length < chars.length := by
  unfold unsigned? at read
  split at read
  · simp at read
  · rename_i integerRead
    have first := length_lt_of_integerPart? integerRead
    split at read
    · simp at read
    · rename_i fractionRead
      have second := length_le_of_fractionPart? fractionRead
      split at read
      · simp at read
      · rename_i exponentRead
        have third := length_le_of_exponentPart? exponentRead
        simp only [Option.some.injEq, Prod.mk.injEq] at read
        rw [← read.2]
        omega

private theorem length_lt_of_literal? {chars digits after : List Char}
    (read : literal? chars = some (digits, after)) : after.length < chars.length := by
  unfold literal? at read
  split at read
  · obtain ⟨⟨inner, remaining⟩, innerRead, equal⟩ := Option.map_eq_some_iff.1 read
    simp only [Prod.mk.injEq] at equal
    have shorter := length_lt_of_unsigned? innerRead
    rw [← equal.2]
    simp only [List.length_cons]
    omega
  · exact length_lt_of_unsigned? read

theorem length_lt_of_nextToken? {chars after : List Char} {token : Token}
    (read : nextToken? chars = some (token, after)) : after.length < chars.length := by
  unfold nextToken? at read
  split at read
  all_goals try
    simp only [Option.some.injEq, Prod.mk.injEq] at read
    rw [← read.2]
    simp only [List.length_cons]
    omega
  · obtain ⟨⟨inner, remaining⟩, innerRead, equal⟩ := Option.map_eq_some_iff.1 read
    simp only [Prod.mk.injEq] at equal
    have shorter := length_lt_of_pieces? innerRead
    rw [← equal.2]
    simp only [List.length_cons]
    omega
  · obtain ⟨⟨inner, remaining⟩, innerRead, equal⟩ := Option.map_eq_some_iff.1 read
    simp only [Prod.mk.injEq] at equal
    rw [← equal.2]
    exact length_lt_of_literal? innerRead

/-- The tokens of a text, unless a part of it is none. -/
def tokens? (chars : List Char) : Option (List Token) :=
  match _spaces : chars.dropWhile isSpace with
  | [] => some []
  | first :: rest =>
      match _read : nextToken? (first :: rest) with
      | none => none
      | some (token, after) => (tokens? after).map (token :: ·)
termination_by chars.length
decreasing_by
  have shorter := length_lt_of_nextToken? _read
  have whole := length_dropWhile_le isSpace chars
  rw [_spaces] at whole
  omega

end VirtualBlocks.Json
