/-!
Contract: a text as a sequence of lines.

Owns:
- the lines of a text, a carriage return before a line feed dropped;
- the count of line feeds, from which line numbers are read off;
- writing a sequence of lines, each with its line feed.

Does not own: the cut at every line feed with nothing dropped, which is the
library's `List.splitOn`.
-/

namespace VirtualBlocks.Text

/-- A line without the carriage return that ends it, if there is one. -/
def dropLineReturn (line : List Char) : List Char :=
  if line.getLast? = some '\r' then line.dropLast else line

/-- The lines of a text, each without the line feed that ends it and a carriage
return before that. Text after the last line feed is a line as it stands. -/
def lines (text : List Char) : List (List Char) :=
  let pieces := text.splitOn '\n'
  let unended :=
    match pieces.getLast? with
    | none => []
    | some [] => []
    | some line => [line]
  pieces.dropLast.map dropLineReturn ++ unended

def lineFeeds (text : List Char) : Nat :=
  text.count '\n'

/-- Lines written one after the other, each ended by a line feed. -/
def writeLines (written : List (List Char)) : List Char :=
  written.flatMap (fun line => line ++ ['\n'])

end VirtualBlocks.Text
