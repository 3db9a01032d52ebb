import VirtualBlocks.Address
import VirtualBlocks.Path
import VirtualBlocks.Text.Search
import VirtualBlocks.Uri.Query

/-!
Contract: the ids under which a bundler sees the blocks of a component.

Owns:
- the place where an id turns from a component file into a query: the extension
  `.vue` in any letter case, possibly one more extension of letters, a question
  mark, and a query that runs to the end on one line;
- the id of a block: the base name of its file and the query of the file, in
  which one reserved parameter holds the address;
- reading the address of an id, and the file that a resolved id belongs to.

An id that is no block request is not an error: it reads as nothing.
-/

namespace VirtualBlocks

/-- What a resolved id stands for: a block of a file. -/
structure BlockRequest where
  file : Path
  address : Address
deriving DecidableEq

namespace VirtualId

open VirtualBlocks.Text

/-- The reserved parameter that holds the address. -/
def parameter : String := "vuepart"

/-- The extension of component files. -/
def extension : List Char := ['.', 'v', 'u', 'e']

/-! ## The query of an id -/

/-- The letters of a second extension, in any case: the two letters outside
ASCII whose other case is an ASCII letter are among them. -/
def isExtensionLetter (c : Char) : Bool :=
  c.isAlpha || c == '\u017F' || c == '\u212A'

/-- What follows the component extension, in any letter case, at the start of a
text. -/
def afterExtension? : List Char → Option (List Char)
  | '.' :: v :: u :: e :: rest =>
      if v.toLower = 'v' ∧ u.toLower = 'u' ∧ e.toLower = 'e' then some rest else none
  | _ => none

/-- A query runs to the end of the id: it is not empty and holds no line
feed. -/
def isQuery (text : List Char) : Bool :=
  !text.isEmpty && !text.contains '\n'

/-- The query behind a question mark. -/
def queryAfterMark? : List Char → Option (List Char)
  | '?' :: query => if isQuery query then some query else none
  | _ => none

/-- The query behind the extension of a component, with or without a second
extension between the two. -/
def queryAfterExtension? : List Char → Option (List Char)
  | '.' :: rest =>
      if (rest.takeWhile isExtensionLetter).isEmpty then none
      else queryAfterMark? (rest.dropWhile isExtensionLetter)
  | rest => queryAfterMark? rest

/-- The query of an id, cut at the first place where one can start. -/
def query? : List Char → Option (List Char)
  | [] => none
  | c :: rest =>
      match (afterExtension? (c :: rest)).bind queryAfterExtension? with
      | some query => some query
      | none => query? rest

/-- An id without its query and the question mark before it. -/
def withoutQuery (id : List Char) : List Char :=
  match query? id with
  | some query => id.take (id.length - query.length - 1)
  | none => id

/-- The parameters of an id; none when it has no query. -/
def parameters (id : List Char) : Uri.Query :=
  match query? id with
  | some query => Uri.Query.ofText query
  | none => []

/-! ## Writing -/

/-- Whether a character separates the parts of a file name on some platform. -/
def isSeparator (c : Char) : Bool :=
  c == '/' || c == '\\'

/-- The last part of a name; separators at its end do not count. -/
def baseName (name : List Char) : List Char :=
  ((name.reverse.dropWhile isSeparator).takeWhile (fun c => !isSeparator c)).reverse

/-- The id of the block with this kind, position and language in a file. The
parameters of the file stay as they are, except that the reserved one takes the
address as its value. -/
def write (file : Path) (kind : BlockKind) (index : Option Nat) (lang : String) : String :=
  let name := file.text.toList
  let address := String.ofList (Address.toText kind index lang)
  let query := (parameters name).set parameter address
  String.ofList (baseName (withoutQuery name) ++ '?' :: query.toText)

/-- The id of a block whose language may be left to the defaults. -/
def encode (languages : Languages) (file : Path) (declared : Option String)
    (kind : BlockKind) (index : Option Nat) : String :=
  write file kind index (languages.forKind kind declared)

def ofBlock (languages : Languages) (file : Path) (block : Block) (kind : BlockKind)
    (index : Option Nat) : String :=
  write file kind index (languages.forBlock kind block)

/-! ## Reading -/

def address? (languages : Languages) (id : String) : Option Address := do
  let query ← query? id.toList
  let value ← (Uri.Query.ofText query).get? parameter
  Address.ofText? languages value.toList

def isBlockRequest (languages : Languages) (id : String) : Bool :=
  (address? languages id).isSome

/-- The file and the address of a resolved id. The file ends with the last
lower-case component extension of the id. -/
def request? (languages : Languages) (id : String) : Option BlockRequest := do
  let file ← throughLast? extension id.toList
  let address ← address? languages id
  return { file := ⟨String.ofList file⟩, address }

end VirtualId

end VirtualBlocks
