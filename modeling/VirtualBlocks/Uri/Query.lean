import VirtualBlocks.Uri.Percent

/-!
Contract: query strings `a=1&b=2` as ordered lists of parameters.

Owns:
- the parameter list, in which order and repetition count;
- reading a query: empty parts are dropped, a part without `=` has the empty
  value, `+` is a space, and escapes that are no UTF-8 stay as they are;
- writing a query, in which `&` and `=` occur as separators only;
- setting a parameter: the first one of that key changes its value in place, or
  a new one is appended.
-/

namespace VirtualBlocks.Uri

/-- The parameters of a query, in order: key and value. -/
abbrev Query := List (String × String)

/-- A component as it is meant: `+` is a space, and escapes are read unless the
bytes they give are no UTF-8. -/
def unescape (component : List Char) : List Char :=
  let spaced := component.map (fun c => if c = '+' then ' ' else c)
  (decode? spaced).getD spaced

/-- One `key=value` part, cut at the first `=`. -/
def readParameter (part : List Char) : String × String :=
  (String.ofList (unescape (part.takeWhile (· != '='))),
    String.ofList (unescape ((part.dropWhile (· != '=')).drop 1)))

def writeParameter (parameter : String × String) : List Char :=
  encode parameter.1.toList ++ '=' :: encode parameter.2.toList

namespace Query

def ofText (text : List Char) : Query :=
  ((text.splitOn '&').filter (fun part => !part.isEmpty)).map readParameter

def toText (query : Query) : List Char :=
  ['&'].intercalate (query.map writeParameter)

/-- The value of the first parameter with this key. -/
def get? (query : Query) (key : String) : Option String :=
  query.lookup key

/-- The query with the first parameter of this key set to `value`, or with one
more parameter at its end when there is none. -/
def set (key value : String) : Query → Query
  | [] => [(key, value)]
  | parameter :: rest =>
      if parameter.1 = key then (key, value) :: rest
      else parameter :: set key value rest

end Query

end VirtualBlocks.Uri
