import Mathlib.Data.List.TakeWhile
import VirtualBlocks.Proofs.Text.Indentation
import VirtualBlocks.Proofs.Text.IndentationPattern
import VirtualBlocks.Proofs.Text.Occurrence

/-!
Contract: a text without its indentation, line by line.

Owns:
- the lines of a text that are not blank, each without the blanks it starts with,
  and when a line feed is left behind the last of them;
- that a text without its indentation is made of them, that none of its lines
  starts with a blank, and that a line stays as it is from its first character on
  that is not blank;
- that a line which has no indentation is left where it is.

Does not own: the matches that are dropped (`Proofs.Text.IndentationPattern`).
-/

namespace VirtualBlocks.Text

/-! ## The lines of a text -/

@[elab_as_elim]
theorem lines_induction {motive : List Char → Prop}
    (last : ∀ line, '\n' ∉ line → motive line)
    (further : ∀ line rest, '\n' ∉ line → motive rest → motive (line ++ '\n' :: rest))
    (text : List Char) : motive text := by
  induction length : text.length using Nat.strongRecOn generalizing text with
  | ind count inductionHypothesis =>
      rcases splitOn_eq_or '\n' text with ⟨oneLine, -⟩ | ⟨line, rest, oneLine, rfl, -⟩
      · exact last text oneLine
      · refine further line rest oneLine (inductionHypothesis rest.length ?_ rest rfl)
        rw [← length, List.length_append, List.length_cons]
        omega

def IsBlankLine (line : List Char) : Prop :=
  ∀ c ∈ line, isBlank c = true

instance (line : List Char) : Decidable (IsBlankLine line) :=
  inferInstanceAs (Decidable (∀ c ∈ line, isBlank c = true))

/-- The lines of a text that are not blank, without the blanks that they start with. -/
def solidLines (text : List Char) : List (List Char) :=
  ((text.splitOn '\n').map trimStart).filter (fun line => !line.isEmpty)

def earlierLines (text : List Char) : List (List Char) :=
  (text.splitOn '\n').dropLast

def lastLine (text : List Char) : List Char :=
  (text.splitOn '\n').getLast (List.splitOn_ne_nil '\n' text)

/-- The last line of a text of several lines is blank, and one before it is not. -/
structure EndsBlank (text : List Char) : Prop where
  several : '\n' ∈ text
  last : IsBlankLine (lastLine text)
  earlier : ∃ line ∈ earlierLines text, ¬ IsBlankLine line

instance (text : List Char) : Decidable (EndsBlank text) :=
  decidable_of_iff
    ('\n' ∈ text ∧ IsBlankLine (lastLine text) ∧ ∃ line ∈ earlierLines text, ¬ IsBlankLine line)
    ⟨fun ⟨several, last, earlier⟩ => ⟨several, last, earlier⟩,
      fun ⟨several, last, earlier⟩ => ⟨several, last, earlier⟩⟩

theorem earlierLines_append_lastLine (text : List Char) :
    earlierLines text ++ [lastLine text] = text.splitOn '\n' :=
  List.dropLast_concat_getLast (List.splitOn_ne_nil '\n' text)

theorem earlierLines_of_oneLine {line : List Char} (oneLine : '\n' ∉ line) :
    earlierLines line = [] := by
  unfold earlierLines
  rw [List.splitOn_eq_singleton oneLine, List.dropLast_singleton]

theorem lastLine_append {line : List Char} (oneLine : '\n' ∉ line) (rest : List Char) :
    lastLine (line ++ '\n' :: rest) = lastLine rest := by
  have nonempty := List.splitOn_ne_nil '\n' rest
  unfold lastLine
  simp only [List.splitOn_append_cons_self_of_not_mem oneLine, List.getLast_cons nonempty]

/-! ## Lines that are not blank -/

theorem trimStart_eq_nil_iff {line : List Char} : trimStart line = [] ↔ IsBlankLine line :=
  List.dropWhile_eq_nil_iff

theorem isFlush_trimStart {line : List Char} (oneLine : '\n' ∉ line) (solid : ¬ IsBlankLine line) :
    IsFlush (trimStart line) := by
  have nonempty : trimStart line ≠ [] := mt trimStart_eq_nil_iff.1 solid
  obtain ⟨first, others, starts⟩ := List.exists_cons_of_ne_nil nonempty
  have notBlank : isBlank first = false :=
    isBlank_head?_dropWhile line first (List.head?_eq_some_iff.2 ⟨others, starts⟩)
  have within : '\n' ∉ trimStart line := fun member =>
    oneLine ((List.dropWhile_suffix isBlank).subset member)
  exact ⟨by simp [starts, notBlank], within⟩

theorem IsFlush.isBlank_head? {line : List Char} (flush : IsFlush line) :
    ∀ c ∈ line.head?, isBlank c = false := by
  obtain ⟨starts, -⟩ := flush
  intro c isHead
  rw [Option.mem_def.1 isHead] at starts
  simpa using starts

theorem solidLines_of_oneLine {line : List Char} (oneLine : '\n' ∉ line) :
    solidLines line = if IsBlankLine line then [] else [trimStart line] := by
  unfold solidLines
  rw [List.splitOn_eq_singleton oneLine, List.map_singleton]
  split
  · rename_i blank
    rw [trimStart_eq_nil_iff.2 blank]
    rfl
  · rename_i solid
    have nonempty : trimStart line ≠ [] := mt trimStart_eq_nil_iff.1 solid
    rw [List.filter_cons_of_pos (by simpa using nonempty), List.filter_nil]

theorem solidLines_append {line : List Char} (oneLine : '\n' ∉ line) (rest : List Char) :
    solidLines (line ++ '\n' :: rest) = solidLines line ++ solidLines rest := by
  unfold solidLines
  rw [List.splitOn_append_cons_self_of_not_mem oneLine, List.splitOn_eq_singleton oneLine,
    ← List.filter_append, ← List.map_append, List.singleton_append]

theorem solidLines_append_of_blank {line : List Char} (oneLine : '\n' ∉ line)
    (blank : IsBlankLine line) (rest : List Char) :
    solidLines (line ++ '\n' :: rest) = solidLines rest := by
  rw [solidLines_append oneLine, solidLines_of_oneLine oneLine, if_pos blank, List.nil_append]

theorem solidLines_append_of_solid {line : List Char} (oneLine : '\n' ∉ line)
    (solid : ¬ IsBlankLine line) (rest : List Char) :
    solidLines (line ++ '\n' :: rest) = trimStart line :: solidLines rest := by
  rw [solidLines_append oneLine, solidLines_of_oneLine oneLine, if_neg solid,
    List.singleton_append]

theorem solidLines_eq_nil_iff {text : List Char} :
    solidLines text = [] ↔
      (∀ line ∈ earlierLines text, IsBlankLine line) ∧ IsBlankLine (lastLine text) := by
  rw [← List.forall_mem_singleton (p := IsBlankLine), ← List.forall_mem_append,
    earlierLines_append_lastLine]
  unfold solidLines
  rw [List.filter_eq_nil_iff, List.forall_mem_map]
  simp [trimStart_eq_nil_iff]

theorem isFlush_of_mem_solidLines {text line : List Char} (member : line ∈ solidLines text) :
    IsFlush line := by
  induction text using lines_induction with
  | last only oneLine =>
      rw [solidLines_of_oneLine oneLine] at member
      split at member
      · contradiction
      · rename_i solid
        rw [List.mem_singleton.1 member]
        exact isFlush_trimStart oneLine solid
  | further first rest oneLine inductionHypothesis =>
      by_cases blank : IsBlankLine first
      · rw [solidLines_append_of_blank oneLine blank] at member
        exact inductionHypothesis member
      · rw [solidLines_append_of_solid oneLine blank] at member
        rcases List.mem_cons.1 member with rfl | inRest
        · exact isFlush_trimStart oneLine blank
        · exact inductionHypothesis inRest

/-- A text ends blank when its last line is blank and one of its lines is not. -/
theorem endsBlank_iff {text : List Char} :
    EndsBlank text ↔ IsBlankLine (lastLine text) ∧ solidLines text ≠ [] := by
  constructor
  · rintro ⟨-, last, line, member, solid⟩
    exact ⟨last, fun nothing => solid ((solidLines_eq_nil_iff.1 nothing).1 line member)⟩
  · rintro ⟨last, something⟩
    have notAll : ¬ ∀ line ∈ earlierLines text, IsBlankLine line := fun allBlank =>
      something (solidLines_eq_nil_iff.2 ⟨allBlank, last⟩)
    simp only [not_forall, exists_prop] at notAll
    refine ⟨?_, last, notAll⟩
    by_contra oneLine
    obtain ⟨line, member, -⟩ := notAll
    rw [earlierLines_of_oneLine oneLine] at member
    contradiction

/-! ## Line by line -/

theorem unindent_trimStart (line rest : List Char) :
    unindent (trimStart line ++ rest) = unindent (line ++ rest) := by
  have cut := List.takeWhile_append_dropWhile (p := isBlank) (l := line)
  unfold unindent trimStart
  rw [← dropIndentation_append_of_blank (isBlank_of_mem_takeWhile line), ← List.append_assoc, cut]

theorem unindent_append_of_blank {line : List Char} (blank : IsBlankLine line) (rest : List Char) :
    unindent (line ++ '\n' :: rest) = unindent rest := by
  have feed : ∀ c ∈ line ++ ['\n'], isBlank c = true :=
    List.forall_mem_append.2 ⟨blank, List.forall_mem_singleton.2 (by decide)⟩
  rw [List.append_cons]
  exact dropIndentation_append_of_blank feed rest

theorem unindent_append_of_solid {line : List Char} (oneLine : '\n' ∉ line)
    (solid : ¬ IsBlankLine line) (rest : List Char) :
    unindent (line ++ '\n' :: rest) = trimStart line ++ '\n' :: unindent rest := by
  rw [← unindent_trimStart]
  exact (isFlush_trimStart oneLine solid).dropIndentation ('\n' :: rest)

theorem unindent_of_oneLine {line : List Char} (oneLine : '\n' ∉ line) :
    unindent line = trimStart line := by
  have trimmed := unindent_trimStart line []
  rw [List.append_nil, List.append_nil] at trimmed
  rw [← trimmed]
  by_cases blank : IsBlankLine line
  · rw [trimStart_eq_nil_iff.2 blank]
    rfl
  · have flush := (isFlush_trimStart oneLine blank).dropIndentation []
    rw [List.append_nil, dropIndentation, List.append_nil] at flush
    exact flush

theorem unindent_eq_intercalate (text : List Char) :
    unindent text =
      ['\n'].intercalate (solidLines text) ++ if EndsBlank text then ['\n'] else [] := by
  induction text using lines_induction with
  | last line oneLine =>
      have notEnds : ¬ EndsBlank line := fun ends => oneLine ends.several
      rw [if_neg notEnds, List.append_nil, unindent_of_oneLine oneLine,
        solidLines_of_oneLine oneLine]
      split
      · rename_i blank
        exact trimStart_eq_nil_iff.2 blank
      · exact List.intercalate_singleton.symm
  | further line rest oneLine inductionHypothesis =>
      have sameLast := lastLine_append oneLine rest
      by_cases blank : IsBlankLine line
      · have sameEnd : EndsBlank (line ++ '\n' :: rest) ↔ EndsBlank rest := by
          rw [endsBlank_iff, endsBlank_iff, sameLast, solidLines_append_of_blank oneLine blank]
        rw [unindent_append_of_blank blank, inductionHypothesis,
          solidLines_append_of_blank oneLine blank, if_congr sameEnd rfl rfl]
      · rw [unindent_append_of_solid oneLine blank, inductionHypothesis,
          solidLines_append_of_solid oneLine blank]
        by_cases nothing : solidLines rest = []
        · -- the line feed behind this line is the last one that is left
          have lastBlank : IsBlankLine (lastLine rest) := (solidLines_eq_nil_iff.1 nothing).2
          have ends : EndsBlank (line ++ '\n' :: rest) := by
            rw [endsBlank_iff, sameLast, solidLines_append_of_solid oneLine blank]
            exact ⟨lastBlank, List.cons_ne_nil _ _⟩
          have notEnds : ¬ EndsBlank rest := fun endsBlank => (endsBlank_iff.1 endsBlank).2 nothing
          rw [if_pos ends, if_neg notEnds, nothing, List.intercalate_singleton]
          rfl
        · have sameEnd : EndsBlank (line ++ '\n' :: rest) ↔ EndsBlank rest := by
            rw [endsBlank_iff, endsBlank_iff, sameLast, solidLines_append_of_solid oneLine blank]
            simp [nothing]
          rw [List.intercalate_cons_of_ne_nil nothing, if_congr sameEnd rfl rfl]
          simp

theorem dropIndentation_dropIndentation (atLineStart : Bool) (text : List Char) :
    dropIndentation atLineStart (dropIndentation atLineStart text) =
      dropIndentation atLineStart text := by
  induction text generalizing atLineStart with
  | nil => rfl
  | cons c rest inductionHypothesis =>
      by_cases dropped : (atLineStart && isBlank c) = true
      · rw [dropIndentation, if_pos dropped, (Bool.and_eq_true_iff.1 dropped).1,
          inductionHypothesis]
      · rw [dropIndentation, if_neg dropped, dropIndentation, if_neg dropped, inductionHypothesis]

/-! ## The lines that are left -/

theorem splitOn_intercalate_eq_flatMap {parts : List (List Char)} (nonempty : parts ≠ []) :
    (['\n'].intercalate parts).splitOn '\n' = parts.flatMap (List.splitOn '\n') := by
  induction parts with
  | nil => contradiction
  | cons part rest inductionHypothesis =>
      cases rest with
      | nil => rw [List.intercalate_singleton, List.flatMap_singleton]
      | cons next others =>
          rw [List.intercalate_cons_cons, List.append_assoc, List.singleton_append,
            List.splitOn_append_cons_self, inductionHypothesis (List.cons_ne_nil _ _)]
          exact List.flatMap_cons.symm

/-- A part of one line is a line of the parts in a row. -/
theorem mem_splitOn_intercalate {parts : List (List Char)} {line : List Char}
    (member : line ∈ parts) (oneLine : '\n' ∉ line) :
    line ∈ (['\n'].intercalate parts).splitOn '\n' := by
  rw [splitOn_intercalate_eq_flatMap (List.ne_nil_of_mem member), List.mem_flatMap]
  refine ⟨line, member, ?_⟩
  rw [List.splitOn_eq_singleton oneLine]
  exact List.mem_singleton_self line

theorem splitOn_unindent {text : List Char} (something : solidLines text ≠ []) :
    (unindent text).splitOn '\n' = solidLines text ++ if EndsBlank text then [[]] else [] := by
  have oneLine : ∀ solid ∈ solidLines text, '\n' ∉ solid := fun _ isSolid =>
    (isFlush_of_mem_solidLines isSolid).oneLine
  rw [unindent_eq_intercalate]
  by_cases ends : EndsBlank text
  · rw [if_pos ends, if_pos ends, List.splitOn_append_cons_self,
      List.splitOn_intercalate '\n' oneLine something, List.splitOn_nil]
  · rw [if_neg ends, if_neg ends, List.append_nil, List.append_nil,
      List.splitOn_intercalate '\n' oneLine something]

theorem mem_splitOn_unindent {text line : List Char}
    (member : line ∈ (unindent text).splitOn '\n') : line ∈ solidLines text ∨ line = [] := by
  by_cases nothing : solidLines text = []
  · have notEnds : ¬ EndsBlank text := fun ends => (endsBlank_iff.1 ends).2 nothing
    rw [unindent_eq_intercalate, nothing, if_neg notEnds] at member
    exact .inr (List.mem_singleton.1 member)
  · rw [splitOn_unindent nothing] at member
    rcases List.mem_append.1 member with isSolid | isLast
    · exact .inl isSolid
    · split at isLast
      · exact .inr (List.mem_singleton.1 isLast)
      · contradiction

theorem IsFlush.trimStart_eq {line : List Char} (flush : IsFlush line) : trimStart line = line := by
  cases line with
  | nil => rfl
  | cons first others => exact List.dropWhile_cons_of_neg (by simpa using flush.starts)

/-- A line without indentation is left where it is. -/
theorem IsFlush.mem_splitOn_unindent {text line : List Char} (flush : IsFlush line)
    (member : line ∈ text.splitOn '\n') : line ∈ (unindent text).splitOn '\n' := by
  have nonempty : line ≠ [] := by
    rintro rfl
    exact absurd flush.starts (by decide)
  have isSolid : line ∈ solidLines text := by
    unfold solidLines
    rw [List.mem_filter, List.mem_map]
    exact ⟨⟨line, member, flush.trimStart_eq⟩, by simpa using nonempty⟩
  rw [splitOn_unindent (List.ne_nil_of_mem isSolid)]
  exact List.mem_append_left _ isSolid

/-! ## Behind a character that is not blank -/

/-- From a character on that is not blank, a line is no longer at its start. -/
theorem dropIndentation_append_cons {solid : Char} (notBlank : isBlank solid = false)
    (atLineStart : Bool) (front rest : List Char) :
    dropIndentation atLineStart (front ++ solid :: rest) =
      dropIndentation atLineStart front ++ solid :: dropIndentation false rest := by
  induction front generalizing atLineStart with
  | nil =>
      have notFeed : (solid == '\n') = false := by
        rw [beq_eq_false_iff_ne]
        rintro rfl
        exact absurd notBlank (by decide)
      have stays : ¬ (atLineStart && isBlank solid) = true := by
        rw [notBlank, Bool.and_false]
        exact Bool.false_ne_true
      rw [List.nil_append, dropIndentation, dropIndentation, if_neg stays, notFeed,
        List.nil_append]
  | cons c others inductionHypothesis =>
      rw [List.cons_append, dropIndentation, dropIndentation]
      split
      · exact inductionHypothesis true
      · rw [inductionHypothesis, List.cons_append]

theorem unindent_append_solid {solid : Char} (notBlank : isBlank solid = false)
    {between : List Char} (oneLine : '\n' ∉ between) (front : List Char) (c : Char)
    (behind : List Char) :
    unindent (front ++ solid :: (between ++ c :: behind)) =
      unindent front ++ solid :: (between ++ c :: dropIndentation (c == '\n') behind) := by
  unfold unindent
  rw [dropIndentation_append_cons notBlank, dropIndentation_within oneLine, dropIndentation,
    Bool.false_and, if_neg Bool.false_ne_true]

/-- Dropping what the pattern of indentation matches leaves the lines that are not blank,
each without the blanks that it starts with, and a line feed behind the last of them when
the text ends blank. A second time it drops nothing, and no line that is left starts with
a blank. A character stays where it is if one before it in its line is not blank. -/
theorem unindent_lineWise (text : List Char) :
    (∀ left, LeftWithout [] text left ↔ left = unindent text) ∧
      unindent text =
        ['\n'].intercalate (solidLines text) ++ (if EndsBlank text then ['\n'] else []) ∧
      unindent (unindent text) = unindent text ∧
      (∀ line ∈ (unindent text).splitOn '\n', ∀ c ∈ line.head?, isBlank c = false) ∧
      ∀ front solid between c behind, text = front ++ solid :: (between ++ c :: behind) →
        isBlank solid = false → '\n' ∉ between →
        unindent text =
          unindent front ++ solid :: (between ++ c :: dropIndentation (c == '\n') behind) := by
  refine ⟨fun left => leftWithout_iff, unindent_eq_intercalate text,
    dropIndentation_dropIndentation true text, ?_, ?_⟩
  · intro line member
    rcases mem_splitOn_unindent member with isSolid | rfl
    · exact (isFlush_of_mem_solidLines isSolid).isBlank_head?
    · exact nofun
  · rintro front solid between c behind rfl notBlank oneLine
    exact unindent_append_solid notBlank oneLine front c behind

/-- The space and the line feed behind `a` stay where they are. -/
theorem unindent_lineWise_blanks_behind :
    isBlank 'a' = false ∧ '\n' ∉ ['b', ' '] ∧
      unindent ("\r\n\u2003".toList ++ 'a' :: (['b', ' '] ++ '\n' :: "\t\n  c".toList)) =
        unindent "\r\n\u2003".toList ++
          'a' :: (['b', ' '] ++ '\n' :: dropIndentation true "\t\n  c".toList) := by
  have notBlank : isBlank 'a' = false := by decide
  have oneLine : '\n' ∉ ['b', ' '] := by decide
  obtain ⟨-, -, -, -, stays⟩ :=
    unindent_lineWise ("\r\n\u2003".toList ++ 'a' :: (['b', ' '] ++ '\n' :: "\t\n  c".toList))
  exact ⟨notBlank, oneLine, stays _ 'a' ['b', ' '] '\n' _ rfl notBlank oneLine⟩

example : unindent "\r\n\u2003ab \n\t\n  c\n\n ".toList = "ab \nc\n".toList := by
  decide

end VirtualBlocks.Text
