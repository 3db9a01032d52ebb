import VirtualBlocks.Text.Search

/-!
Contract: asset references `require("…")` in render code, turned into imports.

Owns:
- a quoted literal: a non-empty text between two equal quotes, in which a
  backslash takes the next character with it unless that is a line feed;
- a call `require(literal)`, written without blanks;
- the binding of a literal, made of the runs of lower-case letters and digits
  in it;
- the result: every call gives way to its binding, and the code starts with
  one import for each distinct literal, in the order of first occurrence.
-/

namespace VirtualBlocks.Assets

/-- The body of a literal and the quote that ends it, and what follows. -/
def literalBody? (quote : Char) : List Char → Option (List Char × List Char)
  | [] => none
  | '\\' :: escaped :: rest =>
      if escaped = '\n' then none
      else
        (literalBody? quote rest).map (fun read => ('\\' :: escaped :: read.1, read.2))
  | c :: rest =>
      if c = quote then some ([c], rest)
      else if c = '\\' then none
      else (literalBody? quote rest).map (fun read => (c :: read.1, read.2))

/-- The literal at the start of a text, quotes included, and what follows. -/
def literal? : List Char → Option (List Char × List Char)
  | quote :: rest =>
      if (quote = '"' ∨ quote = '\'') ∧ rest.head? ≠ some quote then
        (literalBody? quote rest).map (fun read => (quote :: read.1, read.2))
      else none
  | [] => none

def callStart : List Char := "require(".toList

/-- The literal of the call at the start of a text, and what follows the
call. -/
def call? (text : List Char) : Option (List Char × List Char) :=
  if callStart.isPrefixOf text then
    match literal? (text.drop callStart.length) with
    | some (literal, ')' :: rest) => some (literal, rest)
    | _ => none
  else none

private theorem length_le_of_literalBody? {quote : Char} {text body rest : List Char}
    (read : literalBody? quote text = some (body, rest)) : rest.length ≤ text.length := by
  fun_induction literalBody? quote text generalizing body rest with
  | case1 => simp at read
  | case2 => simp at read
  | case3 escaped tail allowed inductionHypothesis =>
      obtain ⟨⟨inner, remaining⟩, innerRead, equal⟩ := Option.map_eq_some_iff.1 read
      simp only [Prod.mk.injEq] at equal
      have shorter := inductionHypothesis innerRead
      rw [← equal.2]
      simp only [List.length_cons]
      omega
  | case4 tail =>
      simp only [Option.some.injEq, Prod.mk.injEq] at read
      simp [← read.2]
  | case5 => simp at read
  | case6 c tail notEscape notQuote notBackslash inductionHypothesis =>
      obtain ⟨⟨inner, remaining⟩, innerRead, equal⟩ := Option.map_eq_some_iff.1 read
      simp only [Prod.mk.injEq] at equal
      have shorter := inductionHypothesis innerRead
      rw [← equal.2]
      simp only [List.length_cons]
      omega

theorem length_lt_of_call? {text literal rest : List Char}
    (read : call? text = some (literal, rest)) : rest.length < text.length := by
  unfold call? at read
  split at read
  · split at read
    · rename_i found tail literalRead
      simp only [Option.some.injEq, Prod.mk.injEq] at read
      unfold literal? at literalRead
      split at literalRead
      · split at literalRead
        · rename_i quote body dropped _
          obtain ⟨⟨inner, remaining⟩, innerRead, equal⟩ :=
            Option.map_eq_some_iff.1 literalRead
          simp only [Prod.mk.injEq] at equal
          have shorter := length_le_of_literalBody? innerRead
          have whole := congrArg List.length dropped
          rw [List.length_drop, List.length_cons] at whole
          rw [equal.2] at shorter
          rw [← read.2]
          simp only [List.length_cons] at shorter
          omega
        · simp at literalRead
      · simp at literalRead
    · simp at read
  · simp at read

/-- A piece of code: plain text, or a call with this literal. -/
inductive Piece where
  | plain (c : Char)
  | call (literal : List Char)
deriving DecidableEq

/-- Code cut at its calls, read from the left. -/
def pieces : List Char → List Piece
  | [] => []
  | c :: rest =>
      match _read : call? (c :: rest) with
      | some (literal, after) => .call literal :: pieces after
      | none => .plain c :: pieces rest
termination_by code => code.length
decreasing_by
  · exact length_lt_of_call? _read
  · simp

def literals (code : List Piece) : List (List Char) :=
  code.filterMap (fun piece =>
    match piece with
    | .call literal => some literal
    | .plain _ => none)

/-! ## Bindings -/

/-- A character that a binding takes from its literal. -/
def isBindingChar (c : Char) : Bool :=
  c.isLower || c.isDigit

/-- A letter from `a` to `z`, or a digit. -/
def IsSmallOrDigit (c : Char) : Prop :=
  ('a' ≤ c ∧ c ≤ 'z') ∨ ('0' ≤ c ∧ c ≤ '9')

theorem isBindingChar_iff {c : Char} : isBindingChar c = true ↔ IsSmallOrDigit c := by
  unfold isBindingChar IsSmallOrDigit Char.isLower Char.isDigit
  simp [Char.le_def]

/-- The characters of a literal with each stretch of others as one underscore,
given whether an underscore was just written. -/
def underscored : Bool → List Char → List Char
  | _, [] => []
  | afterUnderscore, c :: rest =>
      if isBindingChar c then c :: underscored false rest
      else if afterUnderscore then underscored true rest
      else '_' :: underscored true rest

def dropLeading : List Char → List Char
  | '_' :: rest => rest
  | text => text

def dropTrailing (text : List Char) : List Char :=
  if text.getLast? = some '_' then text.dropLast else text

def binding (literal : List Char) : List Char :=
  "__$_require_".toList ++ dropTrailing (dropLeading (underscored false literal)) ++ ['_', '_']

/-! ## Imports -/

def importLine (literal : List Char) : List Char :=
  "import ".toList ++ binding literal ++ " from ".toList ++ literal ++ ['\n']

/-- A piece of code, the binding in place of a call. -/
def Piece.withBinding : Piece → List Char
  | .plain c => [c]
  | .call literal => binding literal

/-- Code whose asset references are imports. -/
def requireToImport (code : String) : String :=
  let cut := pieces code.toList
  String.ofList ((literals cut).eraseDups.flatMap importLine ++ cut.flatMap Piece.withBinding)

end VirtualBlocks.Assets
