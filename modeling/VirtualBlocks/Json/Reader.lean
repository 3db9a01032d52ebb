import VirtualBlocks.Json.Token

/-!
Contract: reading one JSON value from a text.

Owns:
- the state between two tokens, whose open arrays and objects are a stack of
  frames, so that nesting of any depth is read in one pass over the tokens;
- the step of a token on a state;
- reading a text, which holds one value and blanks around it, nothing else.
-/

namespace VirtualBlocks.Json

/-- An array or object that is still open, its parts so far the last one
first. -/
inductive Frame where
  | items (read : List Json)
  | fields (read : List (Quoted × Json)) (key : Quoted)

/-- What may come next. -/
inductive State where
  | value (frames : List Frame)
  /-- A value, or the end of the array that was just opened. -/
  | firstItem (frames : List Frame)
  /-- A key, or the end of the object that was just opened. -/
  | firstKey (frames : List Frame)
  /-- A comma or the end of an array. -/
  | nextItem (read : List Json) (frames : List Frame)
  /-- A comma or the end of an object. -/
  | nextField (read : List (Quoted × Json)) (frames : List Frame)
  | key (read : List (Quoted × Json)) (frames : List Frame)
  | colon (read : List (Quoted × Json)) (key : Quoted) (frames : List Frame)
  /-- Nothing: the value is complete. -/
  | complete (value : Json)

/-- A value has been read inside these frames. -/
def settle (value : Json) : List Frame → State
  | [] => .complete value
  | .items read :: frames => .nextItem (value :: read) frames
  | .fields read key :: frames => .nextField ((key, value) :: read) frames

/-- The start of a value inside these frames. -/
def startValue? (frames : List Frame) : Token → Option State
  | .null => some (settle .null frames)
  | .bool value => some (settle (.bool value) frames)
  | .number literal => some (settle (.number literal) frames)
  | .text content => some (settle (.text content) frames)
  | .openArray => some (.firstItem frames)
  | .openObject => some (.firstKey frames)
  | _ => none

/-- The state after one more token, unless the token does not fit. -/
def State.step? : State → Token → Option State
  | .value frames, token => startValue? frames token
  | .firstItem frames, .closeArray => some (settle (.array []) frames)
  | .firstItem frames, token => startValue? (.items [] :: frames) token
  | .firstKey frames, .closeObject => some (settle (.object []) frames)
  | .firstKey frames, .text name => some (.colon [] name frames)
  | .nextItem read frames, .comma => some (.value (.items read :: frames))
  | .nextItem read frames, .closeArray => some (settle (.array read.reverse) frames)
  | .nextField read frames, .comma => some (.key read frames)
  | .nextField read frames, .closeObject => some (settle (.object read.reverse) frames)
  | .key read frames, .text name => some (.colon read name frames)
  | .colon read name frames, .colon => some (.value (.fields read name :: frames))
  | _, _ => none

/-- The value of a sequence of tokens. -/
def ofTokens? (tokens : List Token) : Option Json :=
  match tokens.foldlM State.step? (.value []) with
  | some (.complete value) => some value
  | _ => none

def ofText? (content : String) : Option Json :=
  (tokens? content.toList).bind ofTokens?

end VirtualBlocks.Json
