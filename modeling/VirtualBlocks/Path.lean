/-!
Contract: slash-separated file paths, read lexically.

Owns:
- the components of a path, in which empty and inner `.` segments do not count;
- two paths naming one file when their components agree;
- joining, parents and ancestors, which keep the text they are given;
- the normal form, in which `..` takes back the name before it.

A backslash is an ordinary character here. Nothing asks a file system.
-/

namespace VirtualBlocks

structure Path where
  text : String
deriving DecidableEq

namespace Path

inductive Component where
  | root
  | current
  | parent
  | name (text : String)
deriving DecidableEq

/-- The step that a segment between slashes stands for. An empty segment and a
single dot stand for none. -/
def Component.ofSegment? : List Char → Option Component
  | [] => none
  | ['.'] => none
  | ['.', '.'] => some .parent
  | segment => some (.name (String.ofList segment))

def Component.text : Component → String
  | .root => "/"
  | .current => "."
  | .parent => ".."
  | .name text => text

def isAbsolute (path : Path) : Bool :=
  path.text.toList.head? == some '/'

/-- The steps of a path. A leading `.` is a step; elsewhere `.` is none. -/
def components (path : Path) : List Component :=
  match path.text.toList with
  | '/' :: rest => .root :: (rest.splitOn '/').filterMap Component.ofSegment?
  | relative =>
      match relative.splitOn '/' with
      | ['.'] :: rest => .current :: rest.filterMap Component.ofSegment?
      | segments => segments.filterMap Component.ofSegment?

/-- Two paths name the same file of a store when their steps agree. -/
def SameFile (left right : Path) : Prop :=
  left.components = right.components

instance (left right : Path) : Decidable (SameFile left right) :=
  inferInstanceAs (Decidable (left.components = right.components))

/-- The last step, when it is a name. -/
def fileName? (path : Path) : Option String :=
  match path.components.getLast? with
  | some (.name text) => some text
  | _ => none

/-- `tail` as seen from `base`: an absolute tail stands alone, any other one is
put behind `base` and a slash. -/
def join (base tail : Path) : Path :=
  if tail.isAbsolute then tail
  else
    match base.text.toList.getLast? with
    | none => tail
    | some '/' => ⟨base.text ++ tail.text⟩
    | some _ => ⟨base.text ++ "/" ++ tail.text⟩

/-! ## Parents -/

/-- Whether a segment is a step of its own, given the segments before it: an
empty one never is, and a dot only at the start of a relative path. -/
def isStep (relative : Bool) (before : List (List Char)) : List Char → Bool
  | [] => false
  | ['.'] => relative && before.isEmpty
  | _ => true

/-- Segments, the last one first, without those at the end that are no step. -/
def dropIdle (relative : Bool) : List (List Char) → List (List Char)
  | [] => []
  | segment :: before =>
      if isStep relative before segment then segment :: before
      else dropIdle relative before

/-- What remains before each step, from the last step to the first. -/
def shortened (relative : Bool) : List (List Char) → List (List (List Char))
  | [] => []
  | segment :: before =>
      if isStep relative before segment then
        dropIdle relative before :: shortened relative before
      else shortened relative before

/-- The path of segments, the last one first. -/
def ofSegments (relative : Bool) (reversed : List (List Char)) : Path :=
  let body := ['/'].intercalate reversed.reverse
  ⟨String.ofList (if relative then body else '/' :: body)⟩

/-- The directories above a path, the nearest first, each as the text before a
step of the path. The last one is the root or the empty path. -/
def parents (path : Path) : List Path :=
  match path.text.toList with
  | '/' :: rest => (shortened false (rest.splitOn '/').reverse).map (ofSegments false)
  | relative => (shortened true (relative.splitOn '/').reverse).map (ofSegments true)

/-- The directory that holds a path, if the path has a step to take back. -/
def parent? (path : Path) : Option Path :=
  path.parents.head?

/-- A path and the directories above it, the nearest first. -/
def ancestors (path : Path) : List Path :=
  path :: path.parents

/-- The directory part of a path, `.` when there is none. -/
def directory (path : Path) : Path :=
  match path.parent? with
  | some parent => if parent.text = "" then ⟨"."⟩ else parent
  | none => ⟨"."⟩

/-! ## Normal form -/

/-- The steps taken so far, the last one first, after one more. A step up takes
back a name, stays at the root, and otherwise is kept. -/
def takeStep (taken : List Component) : Component → List Component
  | .current => taken
  | .parent =>
      match taken with
      | .name _ :: before => before
      | .root :: _ => taken
      | _ => .parent :: taken
  | step => step :: taken

/-- The path of a list of steps; the empty list is `.`. -/
def ofComponents : List Component → Path
  | [] => ⟨"."⟩
  | .root :: rest => ⟨"/" ++ "/".intercalate (rest.map Component.text)⟩
  | steps => ⟨"/".intercalate (steps.map Component.text)⟩

/-- The path with `.` and `..` folded away as far as its text allows. -/
def normalize (path : Path) : Path :=
  ofComponents (path.components.foldl takeStep []).reverse

end Path

end VirtualBlocks
