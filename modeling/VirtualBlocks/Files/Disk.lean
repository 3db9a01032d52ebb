import VirtualBlocks.Files.View

/-!
Contract: files on a disk, as an operating system answers for them.

Owns:
- the tree of files and directories, by the names on the way from the root;
- following a path from a working directory, step by step, with the reason why
  it leads nowhere;
- the view of a disk, in which a base directory may stand before relative paths.

A path is followed as it is written: `a/../b` asks for `a`, and a slash or dot
behind the name of a file asks for a directory.
-/

namespace VirtualBlocks

/-- Why a path cannot be used. -/
inductive DiskFault where
  | notFound
  | notDirectory
  | isDirectory
  | nameTooLong
  | nulCharacter
  | denied
deriving DecidableEq

/-- The reason in the words of the operating system. -/
def DiskFault.text : DiskFault → String
  | .notFound => "No such file or directory (os error 2)"
  | .notDirectory => "Not a directory (os error 20)"
  | .isDirectory => "Is a directory (os error 21)"
  | .nameTooLong => "File name too long (os error 36)"
  | .nulCharacter => "file name contained an unexpected NUL byte"
  | .denied => "Permission denied (os error 13)"

/-- What a path leads to. -/
inductive DiskEntry where
  | file (content : List UInt8)
  | directory
deriving DecidableEq

/-- Files and empty directories, by the names from the root. -/
structure Disk where
  files : List (List String × List UInt8) := []
  directories : List (List String) := []

namespace Disk

/-- The names of an absolute path, each step taken lexically. -/
def names (path : Path) : List String :=
  path.normalize.components.filterMap (fun step =>
    match step with
    | .name text => some text
    | _ => none)

/-- The disk with one more file, or with new content for one. -/
def write (disk : Disk) (path : Path) (content : List UInt8) : Disk :=
  { disk with files := (names path, content) :: disk.files }

def makeDirectory (disk : Disk) (path : Path) : Disk :=
  { disk with directories := names path :: disk.directories }

/-- What stands under some names. A directory is what a file or a directory lies
below. -/
def entry? (disk : Disk) (place : List String) : Option DiskEntry :=
  match disk.files.lookup place with
  | some content => some (.file content)
  | none =>
      if place.isEmpty || disk.directories.any (place.isPrefixOf ·) ||
          disk.files.any (fun file => place.isPrefixOf file.1) then some .directory
      else none

def nameLimit : Nat := 255

def pathLimit : Nat := 4096

/-- The entry that some segments lead to from a place, whose names are given the
last one first. An empty segment and a dot stay in a directory. -/
def follow (disk : Disk) : List String → List (List Char) → Except DiskFault DiskEntry
  | place, [] =>
      match disk.entry? place.reverse with
      | none => .error .notFound
      | some entry => .ok entry
  | place, segment :: rest =>
      match disk.entry? place.reverse with
      | none => .error .notFound
      | some (.file _) => .error .notDirectory
      | some .directory =>
          if segment = [] ∨ segment = ['.'] then follow disk place rest
          else if segment = ['.', '.'] then follow disk place.tail rest
          else if nameLimit < Text.byteLength segment then .error .nameTooLong
          else follow disk (String.ofList segment :: place) rest

/-- The entry that a path leads to from a working directory. -/
def find (disk : Disk) (working : Path) (path : Path) : Except DiskFault DiskEntry :=
  let text := path.text.toList
  if text.contains '\x00' then .error .nulCharacter
  else if text.isEmpty then .error .notFound
  else if pathLimit ≤ Text.byteLength text then .error .nameTooLong
  else
    follow disk (if path.isAbsolute then [] else (names working).reverse) (text.splitOn '/')

/-- The content of the file that a path leads to. -/
def read (disk : Disk) (working : Path) (path : Path) : Except DiskFault (List UInt8) :=
  match disk.find working path with
  | .ok (.file content) => .ok content
  | .ok .directory => .error .isDirectory
  | .error fault => .error fault

/-- A path as seen from a base directory, if there is one. -/
def fullPath (base : Option Path) (path : Path) : Path :=
  match base with
  | some directory => directory.join path
  | none => path

/-- The disk as a view. Relative paths start at the base directory, if there is
one. -/
def view (disk : Disk) (working : Path) (base : Option Path) : FileView where
  read path :=
    let full := fullPath base path
    match disk.read working full with
    | .ok content => .ok content
    | .error .notFound => .error (.notFound full.text)
    | .error fault => .error (.io fault.text)
  isFile path :=
    match disk.find working (fullPath base path) with
    | .ok (.file _) => true
    | _ => false
  isDirectory path :=
    match disk.find working (fullPath base path) with
    | .ok .directory => true
    | _ => false

end Disk

end VirtualBlocks
