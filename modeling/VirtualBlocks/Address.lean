import VirtualBlocks.Languages

/-!
Contract: the address of a block inside its file, as one text.

Owns:
- the address: kind, language and, for a list, the position;
- its text `kind[.index].language`, in which the language may hold dots;
- reading an address, where a second segment of digits is the position and
  whatever follows is the language.

Does not own: the id that carries the text (`VirtualId`).
-/

namespace VirtualBlocks

/-- Which block of a file is meant. -/
structure Address where
  kind : BlockKind
  lang : String
  index : Option Nat := none
deriving DecidableEq

namespace Address

/-- Positions are 64-bit numbers. -/
def indexBound : Nat := 0x10000000000000000

/-- Whether a segment is made of decimal digits. -/
def isIndex (segment : List Char) : Bool :=
  !segment.isEmpty && segment.all Char.isDigit

/-- The number that a segment of digits writes, if it is a position. -/
def index? (segment : List Char) : Option Nat :=
  (some (Nat.ofDigitChars 10 segment 0)).filter (fun number => number < indexBound)

def segments (kind : BlockKind) (index : Option Nat) (lang : String) : List (List Char) :=
  kind.name.toList :: ((index.map (Nat.toDigits 10)).toList ++ [lang.toList])

def toText (kind : BlockKind) (index : Option Nat) (lang : String) : List Char :=
  ['.'].intercalate (segments kind index lang)

/-- The position at the start of some segments, if there is one, and the
segments after it. There is no reading when the position is out of bounds. -/
def leadingIndex? : List (List Char) → Option (Option Nat × List (List Char))
  | segment :: rest =>
      if isIndex segment then (index? segment).map (fun index => (some index, rest))
      else some (none, segment :: rest)
  | [] => some (none, [])

/-- The language that the last segments of an address give: the default of the
kind when there are none. -/
def langOfSegments (languages : Languages) (kind : BlockKind) :
    List (List Char) → String
  | [] => languages.forKind kind none
  | parts => String.ofList (['.'].intercalate parts)

/-- The address that a text gives. The language is never empty. -/
def ofText? (languages : Languages) (text : List Char) : Option Address :=
  match text.splitOn '.' with
  | [] => none
  | first :: rest => do
      let kind ← BlockKind.ofName? (String.ofList first)
      let (index, parts) ← leadingIndex? rest
      let lang := langOfSegments languages kind parts
      if lang = "" then none else some { kind, lang, index }

end Address

end VirtualBlocks
