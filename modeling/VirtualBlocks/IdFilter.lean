import VirtualBlocks.Config
import VirtualBlocks.Glob.Match

/-!
Contract: which files the plugin handles.

Owns:
- the filter: patterns to include, `*.vue` if there is none, and patterns to
  exclude;
- the text a pattern sees, in which backslashes are slashes;
- the error of a pattern that cannot be read.

An id with a NUL character belongs to the bundler and is never handled.
-/

namespace VirtualBlocks

/-- A pattern that cannot be read, and why. -/
structure PatternError where
  pattern : String
  fault : Glob.PatternFault
deriving DecidableEq

def PatternError.text (error : PatternError) : String :=
  "invalid pattern '" ++ error.pattern ++ "': error parsing glob '" ++ error.pattern ++ "': " ++
    error.fault.text

/-- The patterns that decide which files are handled. -/
structure IdFilter where
  includes : List (List Glob.Token)
  excludes : List (List Glob.Token)

namespace IdFilter

/-- The tokens of one pattern, or its error. -/
def readPattern (pattern : String) : Except PatternError (List Glob.Token) :=
  match Glob.ofText pattern with
  | .ok tokens => .ok tokens
  | .error fault => .error ⟨pattern, fault⟩

/-- The filter of two lists of patterns. The first pattern that cannot be read
is reported, those to include first. -/
def ofPatterns (includes excludes : List String) : Except PatternError IdFilter := do
  let wanted := if includes.isEmpty then [Config.defaultInclude] else includes
  let included ← wanted.mapM readPattern
  let excluded ← excludes.mapM readPattern
  return ⟨included, excluded⟩

/-- The text of an id that patterns see. -/
def subject (id : String) : List UInt8 :=
  Text.bytes (id.toList.map (fun c => if c = '\\' then '/' else c))

def accepts (filter : IdFilter) (id : String) : Bool :=
  !id.toList.contains '\x00' &&
    filter.includes.any (fun pattern => Glob.isMatch pattern (subject id)) &&
    !filter.excludes.any (fun pattern => Glob.isMatch pattern (subject id))

def builtin : IdFilter :=
  match ofPatterns [] [] with
  | .ok filter => filter
  | .error _ => ⟨[], []⟩

end IdFilter

end VirtualBlocks
