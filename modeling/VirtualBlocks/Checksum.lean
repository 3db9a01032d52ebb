import VirtualBlocks.Text.Units

/-!
Contract: the checksum of a text, and its hexadecimal form.

Owns:
- the step of a code unit on the running value: the value, cut to 32 signed
  bits and shifted left by five, less the value, plus the unit, cut again;
- the end of a run, which makes a negative value positive and doubles it;
- the checksum, a run over two fixed texts and then the value.
-/

namespace VirtualBlocks.Checksum

open VirtualBlocks.Text

def words : Nat := 0x100000000

/-- A number cut to 32 bits, read with a sign. -/
def signedWord (value : Int) : Int :=
  value.bmod words

/-- The running value, cut and shifted left by five. -/
def shifted (value : Int) : Int :=
  signedWord (signedWord value * 32)

/-- The running value after one more code unit, before it is cut. -/
def advanced (value : Int) (unit : Nat) : Int :=
  shifted value - value + unit

/-- The running value after one more code unit. -/
def step (value : Int) (unit : Nat) : Int :=
  signedWord (advanced value unit)

/-- The end of a run. -/
def finish (value : Int) : Int :=
  if value < 0 then -2 * value else value

/-- The value after a text. An empty text leaves it as it is. -/
def fold (value : Int) (text : List Char) : Int :=
  if text.isEmpty then value else finish ((units text).foldl step value)

def number (text : List Char) : Int :=
  fold (fold (fold (fold 0 []) "[object String]".toList) "string".toList) text

/-- The hexadecimal digits of a number, at least eight of them. -/
def hexadecimal (value : Nat) : List Char :=
  let digits := Nat.toDigits 16 value
  List.replicate (8 - digits.length) '0' ++ digits

/-- The checksum of a text, in lower-case hexadecimal. -/
def ofText (text : String) : String :=
  String.ofList (hexadecimal (number text.toList).toNat)

end VirtualBlocks.Checksum
