import VirtualBlocks.Text.Blank

/-!
Contract: code without indentation and blank lines.

Owns:
- removing every run of blanks that starts at the start of a line, line feeds in
  the run included.
-/

namespace VirtualBlocks.Text

/-- The text without its runs of blanks at the start of a line, given whether
it starts at one. -/
def dropIndentation (atLineStart : Bool) : List Char → List Char
  | [] => []
  | c :: rest =>
      if atLineStart && isBlank c then dropIndentation true rest
      else c :: dropIndentation (c == '\n') rest

/-- The text with no line that starts with a blank. -/
def unindent (text : List Char) : List Char :=
  dropIndentation true text

end VirtualBlocks.Text
