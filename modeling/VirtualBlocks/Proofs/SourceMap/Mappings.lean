import Mathlib.Data.List.DropRight
import VirtualBlocks.SourceMap.Lines
import VirtualBlocks.Proofs.SourceMap.Vlq

/-!
Contract: mappings of version 3, read back.

Owns:
- a segment, and reading it from fields that are relative to what was read before;
- reading the mappings of a map, line by line;
- the segments of the map of a content.

Does not own: where in a source the content of a block lies
(`Proofs.SourceMap.Blocks`).
-/

namespace VirtualBlocks.SourceMap

open VirtualBlocks.Text

/-! ## Segments -/

/-- A place in one of the sources of a map. -/
structure Original where
  source : Int := 0
  line : Int := 0
  column : Int := 0
deriving DecidableEq

/-- What a map says about a column: the place it comes from and a name, both of which
may be missing. -/
structure Segment where
  column : Int
  original : Option Original := none
  name : Option Int := none
deriving DecidableEq

/-- The place and the name that were given last. -/
structure Last where
  original : Original := {}
  name : Int := 0
deriving DecidableEq

def Original.moved (place : Original) (source line column : Int) : Original :=
  ⟨place.source + source, place.line + line, place.column + column⟩

/-- The segment with these fields, of which the first is relative to a column and the
others to what was given last. A segment has one, four or five fields. -/
def readSegment? (column : Int) (last : Last) (fields : List Int) : Option (Segment × Last) :=
  match fields with
  | [step] => some ({ column := column + step }, last)
  | [step, source, line, originalColumn] =>
      let original := last.original.moved source line originalColumn
      some ({ column := column + step, original := some original }, { last with original })
  | [step, source, line, originalColumn, name] =>
      let original := last.original.moved source line originalColumn
      let name := last.name + name
      some ({ column := column + step, original := some original, name := some name },
        { original, name })
  | _ => none

/-! ## Lines -/

/-- The segments of a line that follow a segment at a column. -/
def readSegments? (column : Int) (last : Last) :
    List (List Char) → Option (List Segment × Last)
  | [] => some ([], last)
  | text :: rest => do
      let fields ← Vlq.decode? text
      let (segment, next) ← readSegment? column last fields
      let (segments, final) ← readSegments? segment.column next rest
      return (segment :: segments, final)

/-- The texts of the segments of a line. -/
def segmentTexts (line : List Char) : List (List Char) :=
  if line.isEmpty then [] else line.splitOn ','

/-- The segments of each line. Columns start anew on every line. -/
def readLines? (last : Last) : List (List Char) → Option (List (List Segment))
  | [] => some []
  | line :: rest => do
      let (segments, next) ← readSegments? 0 last (segmentTexts line)
      let further ← readLines? next rest
      return segments :: further

/-- The segments of each line that a map has mappings for. -/
def segments? (map : SourceMap) : Option (List (List Segment)) :=
  readLines? {} (map.mappings.toList.splitOn ';')

theorem readLines?_nil_cons (last : Last) (rest : List (List Char)) :
    readLines? last ([] :: rest) = (readLines? last rest).map ([] :: ·) := by
  show (readLines? last rest >>= fun further => some ([] :: further)) = _
  cases readLines? last rest <;> rfl

/-- Lines without mappings at the end have no segments. -/
theorem readLines?_append_idle (last : Last) (lines : List (List Char)) (count : Nat) :
    readLines? last (lines ++ List.replicate count []) =
      (readLines? last lines).map (· ++ List.replicate count []) := by
  induction lines generalizing last with
  | nil =>
      show readLines? last (List.replicate count []) = some (List.replicate count [])
      induction count with
      | zero => rfl
      | succ count inductionHypothesis =>
          rw [List.replicate_succ, readLines?_nil_cons, inductionHypothesis]
          rfl
  | cons line rest inductionHypothesis =>
      rw [List.cons_append, readLines?, readLines?]
      cases readSegments? 0 last (segmentTexts line) with
      | none => rfl
      | some read =>
          simp only [Option.bind_eq_bind, Option.bind_some, inductionHypothesis]
          cases readLines? read.2 rest <;> rfl

/-! ## The lines of a content -/

/-- A line without a mapping: blanks, behind a `//` if it starts with one. -/
def IsIdle (line : List Char) : Prop :=
  ∃ rest, (line = '/' :: '/' :: rest ∨ ¬ ['/', '/'] <+: line ∧ line = rest) ∧
    ∀ c ∈ rest, isBlank c = true

theorem isIdleLine_iff {line : List Char} : isIdleLine line = true ↔ IsIdle line := by
  unfold isIdleLine IsIdle dropSlashes
  rw [List.all_eq_true]
  split
  · simp
  · rename_i otherwise
    have noSlashes : ¬ ['/', '/'] <+: line := by
      rintro ⟨rest, rfl⟩
      exact otherwise rest rfl
    constructor
    · exact fun blanks => ⟨line, .inr ⟨noSlashes, rfl⟩, blanks⟩
    · rintro ⟨rest, slashes | ⟨-, rfl⟩, blanks⟩
      · exact absurd slashes (otherwise rest)
      · exact blanks

/-- The segment from the first column of a line to the first column of a line of the
first source. -/
def lineStart (line : Nat) : Segment :=
  { column := 0, original := some { line } }

/-- What was given last is the start of a line. -/
def lastLine (line : Nat) : Last :=
  { original := { line } }

/-- The segments of a line that is a line of the first source. -/
def lineSegments (line : Nat) (content : List Char) : List Segment :=
  if isIdleLine content then [] else [lineStart line]

theorem notMem_lineSegment {c : Char} (noDigit : c ∉ Vlq.alphabet) (step : Int) :
    c ∉ lineSegment step := by
  have notFirst : c ≠ 'A' := by
    rintro rfl
    exact noDigit (by decide)
  have notInStep := Vlq.notMem_encode noDigit step
  simp [lineSegment, notFirst, notInStep]

theorem readSegments?_lineSegment (line mapped : Nat) :
    readSegments? 0 (lastLine mapped) (segmentTexts (lineSegment (line - mapped))) =
      some ([lineStart line], lastLine line) := by
  have alone : segmentTexts (lineSegment (line - mapped)) = [lineSegment (line - mapped)] :=
    List.splitOn_eq_singleton (notMem_lineSegment (by decide) _)
  have fields : Vlq.decode? (lineSegment (line - mapped)) =
      some [0, 0, (line : Int) - (mapped : Int), 0] := by
    have written : lineSegment (line - mapped) =
        [0, 0, (line : Int) - (mapped : Int), 0].flatMap Vlq.encode := by
      have zero : Vlq.encode 0 = ['A'] := by decide +kernel
      simp [lineSegment, zero]
    rw [written, Vlq.decode?_flatMap_encode]
  rw [alone, readSegments?, fields]
  simp [readSegment?, readSegments?, Original.moved, lastLine, lineStart]

/-- The mappings of lines are read as one segment for each line that is not idle. -/
theorem readLines?_lineMappings (line mapped : Nat) (contents : List (List Char)) :
    readLines? (lastLine mapped) (lineMappings line mapped contents) =
      some ((contents.zipIdx line).map (fun entry => lineSegments entry.2 entry.1)) := by
  induction contents generalizing line mapped with
  | nil => rfl
  | cons content rest inductionHypothesis =>
      rw [List.zipIdx_cons, List.map_cons, lineMappings]
      by_cases isIdle : isIdleLine content
      · have none : lineSegments line content = [] := if_pos isIdle
        rw [if_pos isIdle, none, readLines?_nil_cons, inductionHypothesis]
        rfl
      · have one : lineSegments line content = [lineStart line] := if_neg isIdle
        rw [if_neg isIdle, one, readLines?, readSegments?_lineSegment]
        simp only [Option.bind_eq_bind, Option.bind_some, inductionHypothesis]
        rfl

theorem notMem_lineMappings (line mapped : Nat) (contents : List (List Char)) :
    ∀ mapping ∈ lineMappings line mapped contents, ';' ∉ mapping := by
  induction contents generalizing line mapped with
  | nil => exact nofun
  | cons content rest inductionHypothesis =>
      rw [lineMappings]
      split
      · exact List.forall_mem_cons.2 ⟨List.not_mem_nil, inductionHypothesis _ _⟩
      · exact List.forall_mem_cons.2
          ⟨notMem_lineSegment (by decide) _, inductionHypothesis _ _⟩

theorem lineMappings_ne_nil (line mapped : Nat) {contents : List (List Char)}
    (filled : contents ≠ []) : lineMappings line mapped contents ≠ [] := by
  cases contents with
  | nil => contradiction
  | cons content rest =>
      rw [lineMappings]
      split <;> exact List.cons_ne_nil _ _

/-! ## The map of a content -/

theorem exists_append_semicolons (mappings : List Char) :
    ∃ count, mappings = trimSemicolons mappings ++ List.replicate count ';' := by
  have trimmed : trimSemicolons mappings = mappings.rdropWhile (· == ';') := rfl
  have all : ∀ c ∈ mappings.rtakeWhile (· == ';'), c = ';' := by
    intro c member
    simpa using List.mem_rtakeWhile_imp member
  refine ⟨(mappings.rtakeWhile (· == ';')).length, ?_⟩
  rw [trimmed, ← List.eq_replicate_of_mem all, List.rdropWhile_append_rtakeWhile]

theorem splitOn_append_semicolons (text : List Char) (count : Nat) :
    (text ++ List.replicate count ';').splitOn ';' =
      text.splitOn ';' ++ List.replicate count [] := by
  induction count generalizing text with
  | zero => simp
  | succ count inductionHypothesis =>
      have moved := inductionHypothesis (text ++ [';'])
      rw [List.splitOn_append_cons_self, List.splitOn_nil] at moved
      simpa [List.replicate_succ] using moved

/-- The segments of the lines of a content, whose first line is line `firstLine` of the
first source: an idle line has none, every other line has one that leads from its first
column to the first column of its own line, and there are none behind the content. -/
structure LeadTo (segments : List (List Segment)) (firstLine : Nat)
    (contents : List (List Char)) : Prop where
  idle : ∀ i line, contents[i]? = some line → IsIdle line → segments.getD i [] = []
  filled : ∀ i line, contents[i]? = some line → ¬ IsIdle line →
    segments.getD i [] = [lineStart (firstLine + i)]
  behind : ∀ i, contents.length ≤ i → segments.getD i [] = []

theorem getD_append_idle (segments : List (List Segment)) (count i : Nat) :
    (segments ++ List.replicate count []).getD i [] = segments.getD i [] := by
  rw [List.getD_eq_getElem?_getD, List.getD_eq_getElem?_getD, List.getElem?_append]
  split
  · rfl
  · rename_i behind
    rw [List.getElem?_eq_none (Nat.le_of_not_lt behind), List.getElem?_replicate]
    split <;> rfl

theorem leadTo_of_append {segments : List (List Segment)} {firstLine count : Nat}
    {contents : List (List Char)}
    (whole : segments ++ List.replicate count [] =
      (contents.zipIdx firstLine).map (fun entry => lineSegments entry.2 entry.1)) :
    LeadTo segments firstLine contents := by
  have same (i : Nat) : segments.getD i [] =
      ((contents[i]?).map (lineSegments (firstLine + i))).getD [] := by
    rw [← getD_append_idle segments count, whole, List.getD_eq_getElem?_getD, List.getElem?_map,
      List.getElem?_zipIdx, Option.map_map]
    rfl
  constructor
  · intro i line here isIdle
    rw [same, here, Option.map_some, lineSegments, if_pos (isIdleLine_iff.2 isIdle)]
    rfl
  · intro i line here notIdle
    rw [same, here, Option.map_some, lineSegments, if_neg (mt isIdleLine_iff.1 notIdle)]
    rfl
  · intro i behind
    rw [same, List.getElem?_eq_none behind]
    rfl

/-- The map of a content leads to the lines that the content stands in. -/
theorem exists_segments_ofContent (file source : String) (firstLine : Nat)
    (content : List Char) (sourceRoot : Option String) :
    ∃ segments, (ofContent file source firstLine content sourceRoot).segments? = some segments ∧
      LeadTo segments firstLine (content.splitOn '\n') := by
  have read := readLines?_lineMappings firstLine 0 (content.splitOn '\n')
  have lines := List.splitOn_intercalate ';'
    (notMem_lineMappings firstLine 0 (content.splitOn '\n'))
    (lineMappings_ne_nil firstLine 0 (List.splitOn_ne_nil '\n' content))
  obtain ⟨count, trimmed⟩ :=
    exists_append_semicolons ([';'].intercalate (lineMappings firstLine 0 (content.splitOn '\n')))
  rw [trimmed, splitOn_append_semicolons] at lines
  rw [← lines, readLines?_append_idle] at read
  obtain ⟨segments, segmentsRead, whole⟩ := Option.map_eq_some_iff.1 read
  refine ⟨segments, ?_, leadTo_of_append whole⟩
  unfold segments? ofContent
  rw [String.toList_ofList]
  exact segmentsRead

end VirtualBlocks.SourceMap
