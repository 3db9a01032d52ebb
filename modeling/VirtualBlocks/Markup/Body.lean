import VirtualBlocks.Text.Blank
import VirtualBlocks.Text.Search

/-!
Contract: where the content of an element ends.

Owns:
- recognising a tag name, in any ASCII letter case and up to its boundary;
- the content of an element whose text is raw: it ends at the first closing tag
  of that name;
- the content of any other element: it ends at the closing tag that balances
  its own, elements of the same name inside it and comments set aside.
-/

namespace VirtualBlocks.Markup

open VirtualBlocks.Text

/-- Whether a tag name may end here. -/
def isNameBoundary : List Char → Bool
  | [] => true
  | c :: _ => isMarkupBlank c || c == '>' || c == '/'

/-- Whether a text starts with a tag name, in any ASCII letter case, and the
name ends there. -/
def startsWithTag (name text : List Char) : Bool :=
  (text.take name.length).map Char.toLower == name.map Char.toLower &&
    isNameBoundary (text.drop name.length)

def commentStart : List Char := ['<', '!', '-', '-']

def commentEnd : List Char := ['-', '-', '>']

/-- Whether a tag, given through its `>`, closes itself. -/
def endsSelfClosing (tag : List Char) : Bool :=
  tag.dropLast.getLast? == some '/'

/-- A content that was read, with a piece of text before it. -/
def prepend (piece : List Char) (read : Option (List Char × List Char)) :
    Option (List Char × List Char) :=
  read.map (fun (content, after) => (piece ++ content, after))

theorem prepend_eq_some {piece content after : List Char}
    {read : Option (List Char × List Char)}
    (prepended : prepend piece read = some (content, after)) :
    ∃ inner, read = some (inner, after) ∧ content = piece ++ inner := by
  obtain ⟨⟨inner, remaining⟩, innerRead, equal⟩ := Option.map_eq_some_iff.1 prepended
  simp only [Prod.mk.injEq] at equal
  exact ⟨inner, equal.2 ▸ innerRead, equal.1.symm⟩

/-- The content of an element with this name, of which `depth` inner elements of
the same name are still open, and what follows its closing tag. Raw text has
neither comments nor inner elements. -/
def body? (name : List Char) (raw : Bool) (depth : Nat) :
    List Char → Option (List Char × List Char)
  | [] => none
  | c :: rest =>
      if c ≠ '<' then prepend [c] (body? name raw depth rest)
      else if !raw && commentStart.isPrefixOf (c :: rest) then
        match _comment : cutThrough? commentEnd (c :: rest) with
        | none => none
        | some (comment, after) => prepend comment (body? name raw depth after)
      else if rest.head? = some '/' then
        if startsWithTag name rest.tail then
          match depth with
          | 0 => some ([], afterFirst ['>'] (c :: rest))
          | outer + 1 => prepend [c] (body? name raw outer rest)
        else prepend [c] (body? name raw depth rest)
      else if !raw && startsWithTag name rest then
        match _inner : cutThrough? ['>'] (c :: rest) with
        | none => none
        | some (tag, after) =>
            if endsSelfClosing tag then prepend tag (body? name raw depth after)
            else prepend tag (body? name raw (depth + 1) after)
      else prepend [c] (body? name raw depth rest)
termination_by text => text.length
decreasing_by
  all_goals first
    | exact length_lt_of_cutThrough? (by decide) _comment
    | exact length_lt_of_cutThrough? (by decide) _inner
    | simp

/-- What follows a closing tag is shorter than the text the content was looked
for in. -/
theorem length_lt_of_body? {name text content after : List Char} {raw : Bool} {depth : Nat}
    (read : body? name raw depth text = some (content, after)) :
    after.length < text.length := by
  fun_induction body? name raw depth text generalizing content after with
  | case1 => simp at read
  | case2 _ c rest _ inductionHypothesis =>
      obtain ⟨inner, innerRead, _⟩ := prepend_eq_some read
      exact Nat.lt_succ_of_lt (inductionHypothesis innerRead)
  | case3 => simp at read
  | case4 _ c rest _ _ comment remaining cut inductionHypothesis =>
      obtain ⟨inner, innerRead, _⟩ := prepend_eq_some read
      have shorter := length_lt_of_cutThrough? (by decide) cut
      exact Nat.lt_trans (inductionHypothesis innerRead) shorter
  | case5 c rest =>
      simp only [Option.some.injEq, Prod.mk.injEq] at read
      rw [← read.2]
      exact length_afterFirst_lt (by decide) (List.cons_ne_nil c rest)
  | case6 c rest _ _ _ _ outer inductionHypothesis =>
      obtain ⟨inner, innerRead, _⟩ := prepend_eq_some read
      exact Nat.lt_succ_of_lt (inductionHypothesis innerRead)
  | case7 _ c rest _ _ _ _ inductionHypothesis =>
      obtain ⟨inner, innerRead, _⟩ := prepend_eq_some read
      exact Nat.lt_succ_of_lt (inductionHypothesis innerRead)
  | case8 => simp at read
  | case9 _ c rest _ _ _ _ tag remaining cut _ inductionHypothesis =>
      obtain ⟨inner, innerRead, _⟩ := prepend_eq_some read
      have shorter := length_lt_of_cutThrough? (by decide) cut
      exact Nat.lt_trans (inductionHypothesis innerRead) shorter
  | case10 _ c rest _ _ _ _ tag remaining cut _ inductionHypothesis =>
      obtain ⟨inner, innerRead, _⟩ := prepend_eq_some read
      have shorter := length_lt_of_cutThrough? (by decide) cut
      exact Nat.lt_trans (inductionHypothesis innerRead) shorter
  | case11 _ c rest _ _ _ _ inductionHypothesis =>
      obtain ⟨inner, innerRead, _⟩ := prepend_eq_some read
      exact Nat.lt_succ_of_lt (inductionHypothesis innerRead)

end VirtualBlocks.Markup
