/-!
Contract: the character classes that decide where text is blank, and the trims
that rest on them.

Owns:
- the Unicode property `White_Space`, by code point;
- the five ASCII blanks that separate the parts of a tag;
- trimming at the start and at both ends.

Does not own: lines (`Text.Lines`) and the removal of indentation
(`Text.Indentation`).
-/

namespace VirtualBlocks.Text

/-- The twenty-five code points that carry the Unicode property `White_Space`. -/
def isBlank (c : Char) : Bool :=
  let code := c.toNat
  (0x09 ≤ code && code ≤ 0x0D) || code == 0x20 || code == 0x85 || code == 0xA0 ||
    code == 0x1680 || (0x2000 ≤ code && code ≤ 0x200A) || code == 0x2028 ||
    code == 0x2029 || code == 0x202F || code == 0x205F || code == 0x3000

/-- The blanks that markup knows: space, tab, line feed, form feed and carriage
return. A vertical tab is not one of them. -/
def isMarkupBlank (c : Char) : Bool :=
  c == ' ' || c == '\t' || c == '\n' || c == '\x0C' || c == '\r'

def trimStart (text : List Char) : List Char :=
  text.dropWhile isBlank

def trim (text : List Char) : List Char :=
  (trimStart (trimStart text).reverse).reverse

end VirtualBlocks.Text
