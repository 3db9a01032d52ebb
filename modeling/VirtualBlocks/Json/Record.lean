import VirtualBlocks.Json.Basic

/-!
Contract: JSON values as the data they stand for.

Owns:
- reading texts, flags, bounded numbers, lists, tables and optional values,
  each from its own kind of value and from no other;
- the fields of a record, given by name or by position.

A record given by name may hold fields that nobody asks for, of any value, but
no asked-for field twice. A record given by position, as an array, may leave
out fields at its end but holds no more values than fields. A table may bind a
key twice, and the later value counts.
-/

namespace VirtualBlocks.Json

def string? : Json → Option String
  | .text content => content
  | _ => none

def bool? : Json → Option Bool
  | .bool value => some value
  | _ => none

/-- A natural number, written with digits only. -/
def natural? : Json → Option Nat
  | .number literal =>
      if literal.toList.all Char.isDigit then some (Nat.ofDigitChars 10 literal.toList 0)
      else none
  | _ => none

/-- A natural number below a bound. -/
def naturalBelow? (bound : Nat) (value : Json) : Option Nat :=
  (value.natural?).filter (fun number => number < bound)

def list? {α : Type} (read : Json → Option α) : Json → Option (List α)
  | .array items => items.mapM read
  | _ => none

/-- An optional value, absent when it is `null`. -/
def optional? {α : Type} (read : Json → Option α) : Json → Option (Option α)
  | .null => some none
  | value => (read value).map some

/-- The fields of an object, if every key is a text. -/
def keyed? : Json → Option (List (String × Json))
  | .object fields => fields.mapM (fun field => field.1.map (fun key => (key, field.2)))
  | _ => none

def table? {α : Type} (read : Json → Option α) (value : Json) : Option (Table α) := do
  let fields ← value.keyed?
  let bindings ← fields.mapM (fun field => (read field.2).map (fun bound => (field.1, bound)))
  return Table.ofList bindings

/-- The values of a record's fields, by name. -/
abbrev Fields := List (String × Json)

/-- The values given for the fields with these names, which are in the order of
their positions. -/
def fields? (names : List String) : Json → Option Fields
  | .array items => if items.length ≤ names.length then some (names.zip items) else none
  | value => do
      let fields ← value.keyed?
      let known := fields.filter (fun field => names.contains field.1)
      if (known.map Prod.fst).Nodup then some known else none

/-- The value of a field, or `absent` when none is given. -/
def Fields.get {α : Type} (fields : Fields) (name : String) (read : Json → Option α)
    (absent : α) : Option α :=
  match fields.lookup name with
  | some value => read value
  | none => some absent

end VirtualBlocks.Json
