import VirtualBlocks.Table

/-!
Contract: JSON values and their written forms.

Owns:
- the value type, in which a number keeps its literal and an object the order
  and repetition of its fields;
- the quoted form of a text;
- the compact form, without blanks, and the indented form, two spaces a level.

Does not own: reading (`Json.Token`, `Json.Reader`) and the fields that a record
expects (`Json.Record`).
-/

namespace VirtualBlocks

/-- A quoted text. It is absent when an escape in it names half of a surrogate
pair, which no text holds. -/
abbrev Quoted := Option String

inductive Json where
  | null
  | bool (value : Bool)
  | number (literal : String)
  | text (content : Quoted)
  | array (items : List Json)
  | object (fields : List (Quoted × Json))

namespace Json

instance : Inhabited Json := ⟨null⟩

/-! ## Building values -/

def string (content : String) : Json :=
  .text (some content)

def natural (value : Nat) : Json :=
  .number (toString value)

def strings (contents : List String) : Json :=
  .array (contents.map string)

/-- An object with these fields. -/
def record (fields : List (String × Json)) : Json :=
  .object (fields.map (fun field => (some field.1, field.2)))

/-- An absent value is written `null`. -/
def optional {α : Type} (write : α → Json) : Option α → Json
  | none => .null
  | some value => write value

/-- A table as an object, in the order of its keys. -/
def table {α : Type} (write : α → Json) (entries : Table α) : Json :=
  record (entries.map write).entries

/-! ## Quoting -/

/-- The lower-case hexadecimal digit of a number below sixteen. -/
def lowerHexDigit (value : Nat) : Char :=
  if value < 10 then Char.ofNat (0x30 + value) else Char.ofNat (0x57 + value)

/-- A character inside quotes. The quote, the backslash and the control
characters are escaped; everything else stands for itself. -/
def escapeChar (c : Char) : List Char :=
  if c = '"' then ['\\', '"']
  else if c = '\\' then ['\\', '\\']
  else if c = '\x08' then ['\\', 'b']
  else if c = '\x0C' then ['\\', 'f']
  else if c = '\n' then ['\\', 'n']
  else if c = '\r' then ['\\', 'r']
  else if c = '\t' then ['\\', 't']
  else if c < ' ' then
    ['\\', 'u', '0', '0', lowerHexDigit (c.toNat / 16), lowerHexDigit (c.toNat % 16)]
  else [c]

/-- A text between quotes. -/
def quote (content : List Char) : List Char :=
  '"' :: (content.flatMap escapeChar ++ ['"'])

def quoted (content : String) : String :=
  String.ofList (quote content.toList)

/-- The quoted form of what may be no text. Half of a surrogate pair is written
as an escape of that kind. -/
def writeQuoted : Quoted → List Char
  | some content => quote content.toList
  | none => ['"', '\\', 'u', 'd', '8', '0', '0', '"']

/-! ## Compact form -/

mutual

/-- The value on one line, without blanks. -/
def compact : Json → List Char
  | .null => ['n', 'u', 'l', 'l']
  | .bool true => ['t', 'r', 'u', 'e']
  | .bool false => ['f', 'a', 'l', 's', 'e']
  | .number literal => literal.toList
  | .text content => writeQuoted content
  | .array [] => ['[', ']']
  | .array (item :: rest) => '[' :: (compact item ++ compactItems rest)
  | .object [] => ['{', '}']
  | .object ((key, value) :: rest) =>
      '{' :: (writeQuoted key ++ ':' :: (compact value ++ compactFields rest))

/-- The items that follow the first one, and the end of the array. -/
def compactItems : List Json → List Char
  | [] => [']']
  | item :: rest => ',' :: (compact item ++ compactItems rest)

/-- The fields that follow the first one, and the end of the object. -/
def compactFields : List (Quoted × Json) → List Char
  | [] => ['}']
  | (key, value) :: rest =>
      ',' :: (writeQuoted key ++ ':' :: (compact value ++ compactFields rest))

end

def toCompact (value : Json) : String :=
  String.ofList (compact value)

/-! ## Indented form -/

/-- The start of a line at a level. -/
def indentation (level : Nat) : List Char :=
  '\n' :: List.replicate (2 * level) ' '

mutual

/-- The value with an item or field a line. An empty array or object stays on
its line. -/
def indented (level : Nat) : Json → List Char
  | .array [] => ['[', ']']
  | .array (item :: rest) =>
      '[' :: (indentation (level + 1) ++ indented (level + 1) item ++
        indentedItems level rest)
  | .object [] => ['{', '}']
  | .object ((key, value) :: rest) =>
      '{' :: (indentation (level + 1) ++ writeQuoted key ++ ':' :: ' ' ::
        indented (level + 1) value ++ indentedFields level rest)
  | .null => compact .null
  | .bool value => compact (.bool value)
  | .number literal => compact (.number literal)
  | .text content => compact (.text content)

/-- The items that follow the first one, and the end of the array. -/
def indentedItems (level : Nat) : List Json → List Char
  | [] => indentation level ++ [']']
  | item :: rest =>
      ',' :: (indentation (level + 1) ++ indented (level + 1) item ++
        indentedItems level rest)

/-- The fields that follow the first one, and the end of the object. -/
def indentedFields (level : Nat) : List (Quoted × Json) → List Char
  | [] => indentation level ++ ['}']
  | (key, value) :: rest =>
      ',' :: (indentation (level + 1) ++ writeQuoted key ++ ':' :: ' ' ::
        indented (level + 1) value ++ indentedFields level rest)

end

def toIndented (value : Json) : String :=
  String.ofList (indented 0 value)

end Json

end VirtualBlocks
