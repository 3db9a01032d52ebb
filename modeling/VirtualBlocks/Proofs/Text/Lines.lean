import VirtualBlocks.Proofs.Text.Occurrence
import VirtualBlocks.Text.Lines

/-!
Contract: the lines of a text, and a text of lines.

Owns:
- how a text is divided into lines, and that reading its lines divides it so;
- that lines which are written one after the other are divided by their line feeds.

Does not own: the indentation of lines (`Proofs.Text.Indentation`).
-/

namespace VirtualBlocks.Text

/-! ## The lines of a text -/

/-- A text is divided into lines. Each of them ends before a line feed, or before a
carriage return and a line feed, and the last one may end with the text. -/
inductive IsLines : List Char → List (List Char) → Prop where
  | nothing : IsLines [] []
  | last {line : List Char} (nonempty : line ≠ []) (oneLine : '\n' ∉ line) : IsLines line [line]
  | feed {line rest : List Char} {others : List (List Char)} (oneLine : '\n' ∉ line)
      (noReturn : line.getLast? ≠ some '\r') (further : IsLines rest others) :
      IsLines (line ++ '\n' :: rest) (line :: others)
  | returnFeed {line rest : List Char} {others : List (List Char)} (oneLine : '\n' ∉ line)
      (further : IsLines rest others) :
      IsLines (line ++ '\r' :: '\n' :: rest) (line :: others)

theorem lines_of_notMem {text : List Char} (oneLine : '\n' ∉ text) :
    lines text = if text = [] then [] else [text] := by
  unfold lines
  rw [List.splitOn_eq_singleton oneLine]
  cases text <;> rfl

theorem lines_append_cons {line : List Char} (oneLine : '\n' ∉ line) (rest : List Char) :
    lines (line ++ '\n' :: rest) = dropLineReturn line :: lines rest := by
  have nonempty := List.splitOn_ne_nil '\n' rest
  unfold lines
  rw [List.splitOn_append_cons_self_of_not_mem oneLine]
  dsimp only
  rw [List.dropLast_cons_of_ne_nil nonempty, List.getLast?_cons_of_ne_nil nonempty]
  rfl

/-- The lines of a text divide it. -/
theorem isLines_lines (text : List Char) : IsLines text (lines text) := by
  induction length : text.length using Nat.strongRecOn generalizing text with
  | ind count inductionHypothesis =>
      rcases splitOn_eq_or '\n' text with ⟨oneLine, -⟩ | ⟨line, rest, oneLine, rfl, -⟩
      · rw [lines_of_notMem oneLine]
        by_cases empty : text = []
        · rw [if_pos empty, empty]
          exact .nothing
        · rw [if_neg empty]
          exact .last empty oneLine
      · have further : IsLines rest (lines rest) := by
          refine inductionHypothesis rest.length ?_ rest rfl
          rw [← length, List.length_append, List.length_cons]
          omega
        rw [lines_append_cons oneLine]
        unfold dropLineReturn
        split
        · rename_i returns
          obtain ⟨inner, rfl⟩ := List.getLast?_eq_some_iff.1 returns
          rw [List.dropLast_concat, List.append_assoc]
          exact .returnFeed (fun member => oneLine (List.mem_append_left _ member)) further
        · rename_i noReturn
          exact .feed oneLine noReturn further

/-- A line stands in the text and holds no line feed. -/
theorem IsLines.of_mem {text line : List Char} {divided : List (List Char)}
    (isLines : IsLines text divided) (member : line ∈ divided) : '\n' ∉ line ∧ line <:+: text := by
  induction isLines with
  | nothing => contradiction
  | last _ oneLine =>
      rw [List.mem_singleton.1 member]
      exact ⟨oneLine, List.infix_refl _⟩
  | feed oneLine _ _ inductionHypothesis =>
      rcases List.mem_cons.1 member with rfl | further
      · exact ⟨oneLine, (List.prefix_append _ _).isInfix⟩
      · obtain ⟨single, inside⟩ := inductionHypothesis further
        exact ⟨single, inside.trans
          ((List.suffix_cons _ _).trans (List.suffix_append _ _)).isInfix⟩
  | returnFeed oneLine _ inductionHypothesis =>
      rcases List.mem_cons.1 member with rfl | further
      · exact ⟨oneLine, (List.prefix_append _ _).isInfix⟩
      · obtain ⟨single, inside⟩ := inductionHypothesis further
        exact ⟨single, inside.trans (((List.suffix_cons _ _).trans (List.suffix_cons _ _)).trans
          (List.suffix_append _ _)).isInfix⟩

/-! ## A text of lines -/

/-- Lines are divided by the line feeds behind them, and nothing comes behind the last. -/
theorem splitOn_writeLines {written : List (List Char)} (oneLine : ∀ line ∈ written, '\n' ∉ line) :
    (writeLines written).splitOn '\n' = written ++ [[]] := by
  unfold writeLines
  induction written with
  | nil => rfl
  | cons line rest inductionHypothesis =>
      obtain ⟨first, others⟩ := List.forall_mem_cons.1 oneLine
      rw [List.flatMap_cons, List.append_assoc, List.singleton_append,
        List.splitOn_append_cons_self_of_not_mem first, inductionHypothesis others,
        List.cons_append]

end VirtualBlocks.Text
