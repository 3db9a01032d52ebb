import VirtualBlocks.SourceMap.Basic
import VirtualBlocks.SourceMap.Vlq
import VirtualBlocks.Text.Blank

/-!
Contract: the map from the content of a block to the lines of its file.

Owns:
- which lines have a mapping: those that hold more than blanks, a leading `//`
  set aside;
- one segment for each such line, from its first column to the first column of
  its line in the file, and none behind the last one;
- the record around the mappings, which names the file and holds its text.
-/

namespace VirtualBlocks.SourceMap

open VirtualBlocks.Text

/-- A line without the `//` it starts with. -/
def dropSlashes : List Char → List Char
  | '/' :: '/' :: rest => rest
  | line => line

/-- A line of blanks, or one that is only `//` and blanks. -/
def isIdleLine (line : List Char) : Bool :=
  (dropSlashes line).all isBlank

/-- The segment of a line that stands `step` lines below the line mapped
before. -/
def lineSegment (step : Int) : List Char :=
  ['A', 'A'] ++ Vlq.encode step ++ ['A']

/-- The mappings of the lines, of which the first one is line `line` of the
file and the line mapped before them is `mapped`. -/
def lineMappings (line mapped : Nat) : List (List Char) → List (List Char)
  | [] => []
  | content :: rest =>
      if isIdleLine content then [] :: lineMappings (line + 1) mapped rest
      else
        lineSegment ((line : Int) - (mapped : Int)) :: lineMappings (line + 1) line rest

def trimSemicolons (mappings : List Char) : List Char :=
  (mappings.reverse.dropWhile (· == ';')).reverse

/-- A file name with slashes between its parts. -/
def forwardSlashes (name : String) : String :=
  String.ofList (name.toList.map (fun c => if c = '\\' then '/' else c))

/-- The map of a block content whose first line is line `firstLine` of its file,
counted from zero. -/
def ofContent (file source : String) (firstLine : Nat) (content : List Char)
    (sourceRoot : Option String) : SourceMap :=
  let name := forwardSlashes file
  let mappings := [';'].intercalate (lineMappings firstLine 0 (content.splitOn '\n'))
  { file := some name
    sourceRoot := some (forwardSlashes (sourceRoot.getD ""))
    sources := [name]
    sourcesContent := [some source]
    mappings := String.ofList (trimSemicolons mappings) }

end VirtualBlocks.SourceMap
