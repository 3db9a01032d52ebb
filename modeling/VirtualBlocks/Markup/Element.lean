import VirtualBlocks.Markup.Body
import VirtualBlocks.Markup.Tag
import VirtualBlocks.Text.Lines
import VirtualBlocks.Text.Units

/-!
Contract: the top-level elements of a component's source.

Owns:
- a place in the source: its offset in UTF-8 bytes and its line;
- skipping what stands between elements: text, comments, declarations,
  instructions and closing tags that close nothing;
- an element: its opening tag, where it starts, and its content;
- the elements of a source in order, up to the first one that cannot be read.
-/

namespace VirtualBlocks.Markup

open VirtualBlocks.Text

/-- A place in a source: the bytes and the line feeds before it. -/
structure Place where
  offset : Nat
  line : Nat
deriving DecidableEq

/-- The place of what is left of a source. -/
def Place.before (source rest : List Char) : Place :=
  { offset := byteLength source - byteLength rest
    line := lineFeeds source - lineFeeds rest }

/-- Why an element cannot be read. -/
inductive ElementFault where
  | tag (fault : TagFault)
  | missingEndTag (tag : String)
deriving DecidableEq

/-- An element that is not read, and where it starts. -/
structure Stop where
  fault : ElementFault
  start : Place
deriving DecidableEq

structure Element where
  tag : OpenTag
  start : Place
  contentStart : Place
  content : String
deriving DecidableEq

/-- Where the content of an element ends. -/
def Element.contentEnd (element : Element) : Nat :=
  element.contentStart.offset + byteLength element.content.toList

/-- The elements of a source, and why reading ended before the end of the
source, if it did. -/
structure Reading where
  elements : List Element
  stop : Option Stop
deriving DecidableEq

/-- Whether the content of an element is raw text. -/
def isRaw (tag : String) : Bool :=
  tag == "script" || tag == "style"

/-- What follows a `<` that opens something other than an element. -/
def opensAside (c : Char) : Bool :=
  c == '/' || c == '!' || c == '?'

/-- The text from the next opening tag on, empty when there is none. -/
def toNextTag : List Char → List Char
  | [] => []
  | c :: rest =>
      if c ≠ '<' then toNextTag rest
      else if commentStart.isPrefixOf (c :: rest) then
        toNextTag (afterFirst commentEnd (c :: rest))
      else
        match rest.head? with
        | none => []
        | some next =>
            if opensAside next then toNextTag (afterFirst ['>'] (c :: rest))
            else if next.isAlpha then c :: rest
            else toNextTag rest
termination_by text => text.length
decreasing_by
  · simp
  · exact @length_afterFirst_lt commentEnd _ (by decide) (List.cons_ne_nil c rest)
  · exact @length_afterFirst_lt ['>'] _ (by decide) (List.cons_ne_nil c rest)
  · simp

/-- Looking for the next tag never moves back. -/
theorem length_toNextTag_le (text : List Char) :
    (toNextTag text).length ≤ text.length := by
  fun_induction toNextTag text with
  | case1 => exact Nat.le_refl 0
  | case2 c rest _ inductionHypothesis =>
      rw [List.length_cons]
      omega
  | case3 c rest _ _ inductionHypothesis =>
      have shorter :=
        @length_afterFirst_lt commentEnd _ (by decide) (List.cons_ne_nil c rest)
      omega
  | case4 => simp
  | case5 c rest _ _ _ _ _ inductionHypothesis =>
      have shorter :=
        @length_afterFirst_lt ['>'] _ (by decide) (List.cons_ne_nil c rest)
      omega
  | case6 => exact Nat.le_refl _
  | case7 c rest _ _ _ _ _ _ inductionHypothesis =>
      rw [List.length_cons]
      omega

/-- The elements of what is left of a source. -/
def readElements (source text : List Char) : Reading :=
  match _found : toNextTag text with
  | [] => ⟨[], none⟩
  | mark :: rest =>
      let start := Place.before source (mark :: rest)
      match _opened : readOpenTag rest with
      | .error fault => ⟨[], some ⟨.tag fault, start⟩⟩
      | .ok (tag, inside) =>
          let contentStart := Place.before source inside
          if tag.selfClosing then
            let further := readElements source inside
            { further with elements := ⟨tag, start, contentStart, ""⟩ :: further.elements }
          else
            match _closed : body? tag.name.toList (isRaw tag.name) 0 inside with
            | none => ⟨[], some ⟨.missingEndTag tag.name, start⟩⟩
            | some (content, after) =>
                let further := readElements source after
                { further with
                  elements :=
                    ⟨tag, start, contentStart, String.ofList content⟩ :: further.elements }
termination_by text.length
decreasing_by
  all_goals
    have tagLength := length_toNextTag_le text
    have openLength := length_le_of_readOpenTag _opened
    rw [_found, List.length_cons] at tagLength
  · omega
  · have bodyLength := length_lt_of_body? _closed
    omega

def elementsOf (source : String) : Reading :=
  readElements source.toList source.toList

end VirtualBlocks.Markup
