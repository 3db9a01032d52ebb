import VirtualBlocks.Text.Units

/-!
Contract: percent coding of text.

Owns:
- the unreserved characters, which stand for themselves;
- writing any other character as its UTF-8 bytes, each `%` and two upper-case
  hexadecimal digits;
- reading escapes back, where a `%` that does not start an escape is itself.

Does not own: the role of `+`, `&` and `=` (`Uri.Query`).
-/

namespace VirtualBlocks.Uri

open VirtualBlocks.Text

/-- Letters, digits and four marks are written as they are. -/
def isUnreserved (c : Char) : Bool :=
  c.isAlphanum || c == '-' || c == '_' || c == '.' || c == '~'

/-- The upper-case hexadecimal digit of a number below sixteen. -/
def hexDigit (value : Nat) : Char :=
  if value < 10 then Char.ofNat (0x30 + value) else Char.ofNat (0x37 + value)

/-- The value of a hexadecimal digit of either case. -/
def hexValue? (c : Char) : Option Nat :=
  if '0' ≤ c ∧ c ≤ '9' then some (c.toNat - 0x30)
  else if 'A' ≤ c ∧ c ≤ 'F' then some (c.toNat - 0x37)
  else if 'a' ≤ c ∧ c ≤ 'f' then some (c.toNat - 0x57)
  else none

def escapeByte (byte : UInt8) : List Char :=
  ['%', hexDigit (byte.toNat / 16), hexDigit (byte.toNat % 16)]

def escapeChar (c : Char) : List Char :=
  if isUnreserved c then [c] else (String.utf8EncodeChar c).flatMap escapeByte

/-- The percent-coded form of a text. -/
def encode (text : List Char) : List Char :=
  text.flatMap escapeChar

/-- The bytes that a percent-coded text stands for. -/
def decodedBytes : List Char → List UInt8
  | '%' :: high :: low :: rest =>
      match hexValue? high, hexValue? low with
      | some upper, some lower =>
          UInt8.ofNat (16 * upper + lower) :: decodedBytes rest
      | _, _ => String.utf8EncodeChar '%' ++ decodedBytes (high :: low :: rest)
  | c :: rest => String.utf8EncodeChar c ++ decodedBytes rest
  | [] => []

/-- The text that a percent-coded text stands for, unless its bytes are no
UTF-8. -/
def decode? (text : List Char) : Option (List Char) :=
  (ofBytes? (decodedBytes text)).map String.toList

end VirtualBlocks.Uri
