import VirtualBlocks.Path
import VirtualBlocks.Text.Units

/-!
Contract: what the plugin may ask of a tree of files.

Owns:
- the view: reading a file, and telling files from directories;
- what follows from it: existence, and reading a file as text;
- the errors of a view, in words.
-/

namespace VirtualBlocks

/-- Why a file cannot be read. -/
inductive FileError where
  | notFound (path : String)
  | invalidUtf8 (path : String)
  | io (reason : String)
deriving DecidableEq

def FileError.text : FileError → String
  | .notFound path => "path not found: " ++ path
  | .invalidUtf8 path => "file is not valid UTF-8: " ++ path
  | .io reason => "IO error: " ++ reason

/-- A tree of files that can be read. -/
structure FileView where
  read : Path → Except FileError (List UInt8)
  isFile : Path → Bool
  isDirectory : Path → Bool

namespace FileView

def pathExists (view : FileView) (path : Path) : Bool :=
  view.isFile path || view.isDirectory path

def readText (view : FileView) (path : Path) : Except FileError String :=
  match view.read path with
  | .error error => .error error
  | .ok content =>
      match Text.ofBytes? content with
      | some text => .ok text
      | none => .error (.invalidUtf8 path.text)

end FileView

end VirtualBlocks
