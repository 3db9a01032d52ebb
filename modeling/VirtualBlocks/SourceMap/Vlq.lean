/-!
Contract: base 64 variable-length quantities.

Owns:
- the alphabet of the sixty-four digits;
- writing an integer: its sign in the lowest bit, then five bits a digit, the
  low digits first, each digit but the last one marked by 32.
-/

namespace VirtualBlocks.Vlq

/-- The digits, in the order of their values. -/
def alphabet : List Char :=
  "ABCDEFGHIJKLMNOPQRSTUVWXYZabcdefghijklmnopqrstuvwxyz0123456789+/".toList

/-- The character of a digit below sixty-four. -/
def digitChar (digit : Nat) : Char :=
  alphabet.getD digit 'A'

/-- The digits of a natural number, five bits each. -/
def digits (value : Nat) : List Nat :=
  if value < 32 then [value]
  else (value % 32 + 32) :: digits (value / 32)

/-- An integer with its sign moved into the lowest bit. -/
def zigzag : Int → Nat
  | .ofNat value => 2 * value
  | .negSucc value => 2 * (value + 1) + 1

def encode (value : Int) : List Char :=
  (digits (zigzag value)).map digitChar

end VirtualBlocks.Vlq
