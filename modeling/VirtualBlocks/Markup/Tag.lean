import VirtualBlocks.Block.Basic
import VirtualBlocks.Text.Blank
import VirtualBlocks.Text.Search

/-!
Contract: opening tags of component markup.

Owns:
- the characters of a tag name, of an attribute name and of a value without
  quotes;
- reading an opening tag from behind its `<` through its `>`;
- the two ways in which a tag can be cut off.

An attribute without `=` is a flag, a repeated attribute has its last value, and
a stray `/` or `=` between attributes is skipped.
-/

namespace VirtualBlocks.Markup

open VirtualBlocks.Text

def isTagNameChar (c : Char) : Bool :=
  c.isAlphanum || c == '-' || c == '_' || c == ':' || c == '.'

def isAttributeNameChar (c : Char) : Bool :=
  !isMarkupBlank c && c != '=' && c != '>' && c != '/'

/-- The characters of a value that stands without quotes. -/
def isBareValueChar (c : Char) : Bool :=
  !isMarkupBlank c && c != '>'

/-- An opening tag. One that closes itself has no content. -/
structure OpenTag where
  name : String
  attributes : Table Attribute
  selfClosing : Bool
deriving DecidableEq

/-- Why an opening tag cannot be read: the text ends inside the tag, or inside
the quotes of an attribute. -/
inductive TagFault where
  | unclosed (tag : String)
  | unterminatedValue (name : String)
deriving DecidableEq

/-- The value of an attribute whose name has just been read, and what follows
it. -/
def readAttribute (name : String) (text : List Char) :
    Except TagFault (Attribute × List Char) :=
  match text.dropWhile isMarkupBlank with
  | '=' :: rest =>
      match rest.dropWhile isMarkupBlank with
      | [] => .ok (.text "", [])
      | first :: inner =>
          if first = '"' ∨ first = '\'' then
            match inner.dropWhile (· != first) with
            | [] => .error (.unterminatedValue name)
            | _ :: after =>
                .ok (.text (String.ofList (inner.takeWhile (· != first))), after)
          else
            .ok (.text (String.ofList ((first :: inner).takeWhile isBareValueChar)),
              (first :: inner).dropWhile isBareValueChar)
  | after => .ok (.flag true, after)

/-- Reading a value never moves back. -/
theorem length_le_of_readAttribute {name : String} {text after : List Char}
    {value : Attribute} (read : readAttribute name text = .ok (value, after)) :
    after.length ≤ text.length := by
  have blanks := length_dropWhile_le isMarkupBlank text
  unfold readAttribute at read
  split at read
  · rename_i rest afterBlanks
    rw [afterBlanks, List.length_cons] at blanks
    have innerBlanks := length_dropWhile_le isMarkupBlank rest
    split at read
    · simp only [Except.ok.injEq, Prod.mk.injEq] at read
      simp [← read.2]
    · rename_i first inner afterEquals
      rw [afterEquals, List.length_cons] at innerBlanks
      split at read
      · have quotedLength := length_dropWhile_le (· != first) inner
        split at read
        · simp at read
        · rename_i closing
          simp only [Except.ok.injEq, Prod.mk.injEq] at read
          rw [closing, List.length_cons] at quotedLength
          rw [← read.2]
          omega
      · have bareLength := length_dropWhile_le isBareValueChar (first :: inner)
        simp only [Except.ok.injEq, Prod.mk.injEq] at read
        rw [List.length_cons] at bareLength
        rw [← read.2]
        omega
  · simp only [Except.ok.injEq, Prod.mk.injEq] at read
    rw [← read.2]
    exact blanks

/-- The attributes that follow, through the end of the tag. -/
def readAttributes (tag : String) (attributes : Table Attribute) (text : List Char) :
    Except TagFault (OpenTag × List Char) :=
  match _separated : text.dropWhile isMarkupBlank with
  | [] => .error (.unclosed tag)
  | '>' :: rest => .ok (⟨tag, attributes, false⟩, rest)
  | '/' :: '>' :: rest => .ok (⟨tag, attributes, true⟩, rest)
  | first :: rest =>
      if _named : isAttributeNameChar first then
        let name := String.ofList ((first :: rest).takeWhile isAttributeNameChar)
        match _read : readAttribute name ((first :: rest).dropWhile isAttributeNameChar) with
        | .error fault => .error fault
        | .ok (value, after) => readAttributes tag (attributes.insert name value) after
      else readAttributes tag attributes rest
termination_by text.length
decreasing_by
  · have blanks := length_dropWhile_le isMarkupBlank text
    rw [_separated, List.length_cons] at blanks
    have valueLength := length_le_of_readAttribute _read
    rw [List.dropWhile_cons_of_pos _named] at valueLength
    have nameLength := length_dropWhile_le isAttributeNameChar rest
    omega
  · have blanks := length_dropWhile_le isMarkupBlank text
    rw [_separated, List.length_cons] at blanks
    omega

/-- The opening tag whose `<` stands before the text, and what follows its
`>`. -/
def readOpenTag (text : List Char) : Except TagFault (OpenTag × List Char) :=
  readAttributes (String.ofList (text.takeWhile isTagNameChar)) ∅
    (text.dropWhile isTagNameChar)

/-- The attributes never reach back before their start. -/
theorem length_le_of_readAttributes {tag : String} {attributes : Table Attribute}
    {text after : List Char} {opened : OpenTag}
    (read : readAttributes tag attributes text = .ok (opened, after)) :
    after.length ≤ text.length := by
  fun_induction readAttributes tag attributes text with
  | case1 => simp at read
  | case2 attributes text rest separated =>
      have blanks := length_dropWhile_le isMarkupBlank text
      rw [separated, List.length_cons] at blanks
      simp only [Except.ok.injEq, Prod.mk.injEq] at read
      rw [← read.2]
      omega
  | case3 attributes text rest separated =>
      have blanks := length_dropWhile_le isMarkupBlank text
      rw [separated, List.length_cons, List.length_cons] at blanks
      simp only [Except.ok.injEq, Prod.mk.injEq] at read
      rw [← read.2]
      omega
  | case4 => simp at read
  | case5 attributes text first rest _ _ separated named name value remaining valueRead
      inductionHypothesis =>
      have blanks := length_dropWhile_le isMarkupBlank text
      rw [separated, List.length_cons] at blanks
      have valueLength := length_le_of_readAttribute valueRead
      rw [List.dropWhile_cons_of_pos named] at valueLength
      have nameLength := length_dropWhile_le isAttributeNameChar rest
      have remainingLength := inductionHypothesis read
      omega
  | case6 attributes text first rest _ _ separated named inductionHypothesis =>
      have blanks := length_dropWhile_le isMarkupBlank text
      rw [separated, List.length_cons] at blanks
      have remainingLength := inductionHypothesis read
      omega

/-- An opening tag never reaches back before its start. -/
theorem length_le_of_readOpenTag {text after : List Char} {opened : OpenTag}
    (read : readOpenTag text = .ok (opened, after)) : after.length ≤ text.length :=
  Nat.le_trans (length_le_of_readAttributes read)
    (length_dropWhile_le isTagNameChar text)

end VirtualBlocks.Markup
