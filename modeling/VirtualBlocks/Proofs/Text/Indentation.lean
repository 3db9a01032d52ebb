import VirtualBlocks.Text.Indentation

/-!
Contract: what dropping indentation leaves of lines that have none.

Owns:
- a line that starts with something other than a blank;
- that such lines stay as they are;
- that lines appended to others are lines in a row.
-/

namespace VirtualBlocks.Text

/-- A line that is not empty and does not start with a blank. -/
structure IsFlush (line : List Char) : Prop where
  starts : line.head?.any (fun first => !isBlank first) = true
  oneLine : '\n' ∉ line

theorem IsFlush.append {front : List Char} (flush : IsFlush front) {behind : List Char}
    (oneLine : '\n' ∉ behind) : IsFlush (front ++ behind) := by
  obtain ⟨starts, frontOneLine⟩ := flush
  cases front with
  | nil => contradiction
  | cons first rest => exact ⟨starts, mt List.mem_append.1 (not_or.2 ⟨frontOneLine, oneLine⟩)⟩

theorem dropIndentation_within {line : List Char} (oneLine : '\n' ∉ line) (rest : List Char) :
    dropIndentation false (line ++ rest) = line ++ dropIndentation false rest := by
  induction line with
  | nil => rfl
  | cons c others inductionHypothesis =>
      rw [List.mem_cons, not_or] at oneLine
      have notFeed : (c == '\n') = false := beq_false_of_ne (Ne.symm oneLine.1)
      simp [dropIndentation, notFeed, inductionHypothesis oneLine.2]

theorem IsFlush.dropIndentation {line : List Char} (flush : IsFlush line) (rest : List Char) :
    Text.dropIndentation true (line ++ rest) = line ++ Text.dropIndentation false rest := by
  have within := dropIndentation_within flush.oneLine rest
  cases line with
  | nil => exact absurd flush.starts (by decide)
  | cons first others =>
      have notBlank : isBlank first = false := by simpa using flush.starts
      rw [List.cons_append, Text.dropIndentation, Bool.false_and] at within
      rw [List.cons_append, Text.dropIndentation, notBlank, Bool.and_false]
      exact within

/-- Lines behind a line, each with the line feed before it. -/
def appended (lines : List (List Char)) : List Char :=
  lines.flatMap ('\n' :: ·)

theorem appended_cons (line : List Char) (rest : List (List Char)) :
    appended (line :: rest) = '\n' :: (line ++ appended rest) :=
  List.flatMap_cons

theorem appended_append (left right : List (List Char)) :
    appended (left ++ right) = appended left ++ appended right :=
  List.flatMap_append

theorem dropIndentation_appended {lines : List (List Char)}
    (flush : ∀ line ∈ lines, IsFlush line) :
    dropIndentation false (appended lines) = appended lines := by
  induction lines with
  | nil => rfl
  | cons line rest inductionHypothesis =>
      obtain ⟨first, others⟩ := List.forall_mem_cons.1 flush
      rw [appended_cons, dropIndentation, Bool.false_and, if_neg Bool.false_ne_true, beq_self_eq_true,
        first.dropIndentation, inductionHypothesis others]

theorem intercalate_cons (first : List Char) (rest : List (List Char)) :
    ['\n'].intercalate (first :: rest) = first ++ appended rest := by
  induction rest generalizing first with
  | nil => simp [appended]
  | cons next others inductionHypothesis =>
      rw [List.intercalate_cons_cons, inductionHypothesis, appended_cons, List.append_assoc,
        List.singleton_append]

/-- Lines appended to others are lines in a row, and the line feed before them is dropped
when there are no others. -/
theorem unindent_append_appended (front behind : List (List Char)) :
    unindent (['\n'].intercalate front ++ appended behind) =
      unindent (['\n'].intercalate (front ++ behind)) := by
  cases front with
  | nil =>
      cases behind with
      | nil => rfl
      | cons first rest =>
          have blank : isBlank '\n' = true := by decide
          unfold unindent
          rw [List.intercalate_nil, List.nil_append, appended_cons, dropIndentation, blank,
            Bool.and_true, if_pos rfl, List.nil_append, intercalate_cons]
  | cons first rest =>
      rw [List.cons_append, intercalate_cons, intercalate_cons, List.append_assoc,
        ← appended_append]

/-- Lines without indentation stay as they are. -/
theorem unindent_intercalate {lines : List (List Char)} (flush : ∀ line ∈ lines, IsFlush line) :
    unindent (['\n'].intercalate lines) = ['\n'].intercalate lines := by
  unfold unindent
  cases lines with
  | nil => rfl
  | cons first rest =>
      obtain ⟨flushFirst, others⟩ := List.forall_mem_cons.1 flush
      rw [intercalate_cons, flushFirst.dropIndentation, dropIndentation_appended others]

end VirtualBlocks.Text
