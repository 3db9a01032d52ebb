import VirtualBlocks.Glob.Pattern
import VirtualBlocks.Text.Units

/-!
Contract: which texts a glob pattern matches.

Owns:
- the bytes that a token takes, ASCII letters in either case;
- the ends of a pattern in a text: for every position, whether the tokens so far
  match the text up to it;
- matching, which asks whether the end of the text is such an end.

Patterns match bytes: a wildcard for one character takes one byte.
-/

namespace VirtualBlocks.Glob

open VirtualBlocks.Text

/-! ## Bytes -/

/-- A byte with its letter case swapped, if it is an ASCII letter. -/
def swapCase (byte : UInt8) : UInt8 :=
  if 0x41 ≤ byte ∧ byte ≤ 0x5A then byte + 0x20
  else if 0x61 ≤ byte ∧ byte ≤ 0x7A then byte - 0x20
  else byte

def sameLetter (left right : UInt8) : Bool :=
  left == right || left == swapCase right

/-- The byte ranges of a range of characters: each byte alone, except that the
last byte of the lower end and the first one of the upper end span a range. -/
def byteRanges (range : Char × Char) : List (UInt8 × UInt8) :=
  let low := String.utf8EncodeChar range.1
  let high := String.utf8EncodeChar range.2
  let single (byte : UInt8) : UInt8 × UInt8 := (byte, byte)
  if range.1 = range.2 then low.map single
  else
    match low.getLast?, high with
    | some start, stop :: others =>
        low.dropLast.map single ++ (start, stop) :: others.map single
    | _, _ => []

def inRange (byte : UInt8) (range : UInt8 × UInt8) : Bool :=
  range.1 ≤ byte && byte ≤ range.2

/-- Whether a byte is in a class, in either letter case. -/
def inClass (ranges : List (Char × Char)) (byte : UInt8) : Bool :=
  (ranges.flatMap byteRanges).any
    (fun range => inRange byte range || inRange (swapCase byte) range)

/-! ## Ends -/

/-- For every position of a text, the last one included, whether a match ends
there. -/
abbrev Ends := List Bool

/-- The ends after one more byte that satisfies `accepts`. -/
def stepByte (accepts : UInt8 → Bool) (content : List UInt8) (ends : Ends) : Ends :=
  false :: List.zipWith (fun ended byte => ended && accepts byte) ends content

/-- The ends after any further bytes, given whether one lies before. -/
def stepAnything (reached : Bool) : Ends → Ends
  | [] => []
  | ended :: rest => (reached || ended) :: stepAnything (reached || ended) rest

def stepBytes (content : List UInt8) (ends : Ends) (expected : List UInt8) : Ends :=
  expected.foldl (fun reached byte => stepByte (sameLetter byte) content reached) ends

/-- The ends of either of two matches. -/
def either (left right : Ends) : Ends :=
  List.zipWith (· || ·) left right

def stepSlash (content : List UInt8) (ends : Ends) : Ends :=
  stepByte (· == 0x2F) content ends

mutual

/-- Whether a sequence of tokens takes nothing whatever the text. -/
def isVoid : List Token → Bool
  | [] => true
  | .alternatives branches :: rest => areVoid branches && isVoid rest
  | _ :: _ => false

/-- Whether every alternative takes nothing whatever the text. -/
def areVoid : List (List Token) → Bool
  | [] => true
  | branch :: rest => isVoid branch && areVoid rest

end

mutual

/-- The ends after one more token. -/
def advance (content : List UInt8) (ends : Ends) : Token → Ends
  | .literal c => stepBytes content ends (String.utf8EncodeChar c)
  | .any => stepByte (fun _ => true) content ends
  | .anything => stepAnything false ends
  | .leadingDirectories =>
      either (either ends (stepSlash content ends))
        (stepSlash content (stepAnything false ends))
  | .innerDirectories =>
      let slashed := stepSlash content ends
      either slashed (stepSlash content (stepAnything false slashed))
  | .trailingDirectories => stepAnything false (stepSlash content ends)
  | .oneOf negated ranges => stepByte (fun byte => inClass ranges byte != negated) content ends
  | .alternatives branches =>
      if areVoid branches then ends else advanceAny content ends branches

def advanceAll (content : List UInt8) (ends : Ends) : List Token → Ends
  | [] => ends
  | token :: rest => advanceAll content (advance content ends token) rest

/-- The ends after one of the alternatives. An alternative that takes nothing
does not count beside others. -/
def advanceAny (content : List UInt8) (ends : Ends) : List (List Token) → Ends
  | [] => ends.map (fun _ => false)
  | branch :: rest =>
      if isVoid branch then advanceAny content ends rest
      else either (advanceAll content ends branch) (advanceAny content ends rest)

end

/-- Whether a pattern matches a whole text. A double star alone matches
everything. -/
def isMatch (tokens : List Token) (content : List UInt8) : Bool :=
  match tokens with
  | [.leadingDirectories] => true
  | _ =>
      let start := true :: content.map (fun _ => false)
      (advanceAll content start tokens).getLast? == some true

end VirtualBlocks.Glob
