import VirtualBlocks.Json.Reader
import VirtualBlocks.PluginError

/-!
Contract: where a module specifier leads in a tree of files.

Owns:
- specifiers that are paths, and specifiers that name a package;
- the search for a base path: as a file, with or without an extension, then as a
  directory, by its manifest or its index;
- the search for a package, from the nearest `node_modules` directory outwards.

A manifest that cannot be read is a manifest without an entry point.
-/

namespace VirtualBlocks.Package

/-- Whether a specifier is a path rather than the name of a package. -/
def isPathLike (specifier : String) : Bool :=
  match specifier.toList with
  | ['.'] => true
  | ['.', '.'] => true
  | '/' :: _ => true
  | '.' :: '/' :: _ => true
  | '.' :: '.' :: '/' :: _ => true
  | _ => false

/-- The extensions that a specifier may leave out, in order. -/
def extensions : List String := ["js", "json"]

/-- A path with an extension put behind it. -/
def withExtension (base : Path) (extension : String) : Path :=
  ⟨base.text ++ "." ++ extension⟩

/-- The file at a base path, if need be with an extension. -/
def asFile? (view : FileView) (base : Path) : Option Path :=
  (base :: extensions.map (withExtension base)).find? view.isFile

def indexFile? (view : FileView) (directory : Path) : Option Path :=
  (extensions.map (fun extension => directory.join ⟨"index." ++ extension⟩)).find? view.isFile

/-- The entry point that a manifest names. As an array a manifest holds its one
field and nothing else. -/
def mainOfManifest? (manifest : Json) : Option (Option String) :=
  match manifest with
  | .array [main] => Json.optional? Json.string? main
  | .array _ => none
  | value => do
      let fields ← value.fields? ["main"]
      fields.get "main" (Json.optional? Json.string?) none

/-- The entry point of a package directory, if its manifest names one. -/
def main? (view : FileView) (directory : Path) : Option String :=
  match view.readText (directory.join ⟨"package.json"⟩) with
  | .error _ => none
  | .ok text =>
      (((Json.ofText? text).bind mainOfManifest?).getD none).filter (fun main => main ≠ "")

/-- The file that the entry point of a directory leads to. -/
def mainFile? (view : FileView) (directory : Path) : Option Path :=
  match main? view directory with
  | none => none
  | some main =>
      let target := (directory.join ⟨main⟩).normalize
      (asFile? view target).or (indexFile? view target)

/-- The file that a directory stands for. -/
def asDirectory? (view : FileView) (directory : Path) : Option Path :=
  if view.isDirectory directory then
    (mainFile? view directory).or (indexFile? view directory)
  else none

/-- The file that a base path stands for. -/
def atBase? (view : FileView) (base : Path) : Option Path :=
  (asFile? view base).or (asDirectory? view base)

/-- The base paths of a package, seen from a directory: one for each directory
on the way to the root that is not itself a `node_modules`. -/
def packageBases (specifier : String) (directory : Path) : List Path :=
  (directory.ancestors.filter (fun ancestor => ancestor.fileName? != some "node_modules")).map
    (fun ancestor => (ancestor.join ⟨"node_modules"⟩).join ⟨specifier⟩)

/-- The base paths of a specifier, seen from a directory. -/
def bases (specifier : String) (directory : Path) : List Path :=
  if isPathLike specifier then [(directory.join ⟨specifier⟩).normalize]
  else packageBases specifier directory

/-- The file that a specifier leads to, seen from a directory. -/
def resolve (view : FileView) (specifier : String) (directory : Path) :
    Except PluginError Path :=
  match (bases specifier directory).findSome? (atBase? view) with
  | some found => .ok found
  | none => .error (.unresolved specifier directory)

end VirtualBlocks.Package
