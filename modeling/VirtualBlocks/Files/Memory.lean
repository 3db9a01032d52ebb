import VirtualBlocks.Files.View
import VirtualBlocks.Table

/-!
Contract: files held in memory.

Owns:
- the key of a path: backslashes are slashes, and slashes at the end do not
  count unless they are the whole path;
- inserting, removing and counting files;
- the view of the files, in which a directory is what some file lies below.
-/

namespace VirtualBlocks

/-- Files by the key of their path. -/
structure MemoryFiles where
  files : Table (List UInt8) := ∅

namespace MemoryFiles

/-- The key of a path. -/
def key (path : Path) : String :=
  let text := path.text.toList.map (fun c => if c = '\\' then '/' else c)
  String.ofList
    (match text with
    | [single] => [single]
    | _ => (text.reverse.dropWhile (· == '/')).reverse)

/-- The files with one more, or with new content for one. -/
def insert (memory : MemoryFiles) (path : Path) (content : List UInt8) : MemoryFiles :=
  ⟨memory.files.insert (key path) content⟩

/-- The files of a list, of which a later one wins. -/
def ofList (files : List (Path × List UInt8)) : MemoryFiles :=
  files.foldl (fun memory file => memory.insert file.1 file.2) {}

def get? (memory : MemoryFiles) (path : Path) : Option (List UInt8) :=
  memory.files.get? (key path)

/-- The content of a file that is taken out, and the files without it. -/
def take (memory : MemoryFiles) (path : Path) : Option (List UInt8) × MemoryFiles :=
  (memory.get? path, ⟨memory.files.erase (key path)⟩)

def remove (memory : MemoryFiles) (path : Path) : MemoryFiles :=
  (memory.take path).2

def size (memory : MemoryFiles) : Nat :=
  memory.files.size

/-- What the key of a file below a directory starts with. -/
def directoryStart (path : Path) : List Char :=
  let directory := (key path).toList
  if directory.getLast? = some '/' then directory else directory ++ ['/']

/-- Whether some file lies below a path. The keys are in order, so the first one from
the start on decides. -/
def isDirectory (memory : MemoryFiles) (path : Path) : Bool :=
  match memory.files.firstFrom? (String.ofList (directoryStart path)) with
  | some (first, _) => (directoryStart path).isPrefixOf first.toList
  | none => false

def view (memory : MemoryFiles) : FileView where
  read path :=
    match memory.get? path with
    | some content => .ok content
    | none => .error (.notFound (key path))
  isFile path := (memory.get? path).isSome
  isDirectory := memory.isDirectory

/-! ## Content after a change -/

/-- Content is found under every path with the key it was inserted under. -/
theorem get?_insert (memory : MemoryFiles) (path other : Path) (content : List UInt8) :
    (memory.insert path content).get? other =
      if key other = key path then some content else memory.get? other :=
  Table.get?_insert memory.files (key path) (key other) content

/-- A removed file is not found under any path with its key. -/
theorem get?_remove (memory : MemoryFiles) (path other : Path) :
    (memory.remove path).get? other =
      if key other = key path then none else memory.get? other :=
  Table.get?_erase memory.files (key path) (key other)

end MemoryFiles

end VirtualBlocks
