import VirtualBlocks.Text.Units
import VirtualBlocks.Uri.Percent

/-!
Contract: string literals in single quotes, as a module script has them.

Owns:
- the escapes of a string literal and the code units that they stand for;
- reading a string literal through its closing quote;
- the texts without a backslash that stand for themselves between single quotes.
-/

namespace VirtualBlocks.Text

def lineTerminators : List Char :=
  ['\n', '\r', '\u2028', '\u2029']

/-! ## Escapes -/

/-- The number that hexadecimal digits stand for. -/
def hexNumber? (digits : List Char) : Option Nat :=
  (digits.mapM Uri.hexValue?).map
    (fun values => values.foldl (fun number value => 16 * number + value) 0)

/-- The letters that stand for a control character behind a backslash. -/
def controlEscapes : List (Char × Nat) :=
  [('b', 0x08), ('t', 0x09), ('n', 0x0A), ('v', 0x0B), ('f', 0x0C), ('r', 0x0D)]

/-- The characters that do not stand for themselves behind a backslash. -/
def isEscapeLetter (c : Char) : Bool :=
  (controlEscapes.lookup c).isSome || c.isDigit || c == 'x' || c == 'u' ||
    lineTerminators.contains c

/-- What may follow a backslash, and the code units that both stand for. A null, which is
followed by no digit, is not among them. -/
inductive IsEscape : List Char → List Nat → Prop
  | itself {c : Char} (ordinary : isEscapeLetter c = false) : IsEscape [c] (charUnits c)
  | control {c : Char} {code : Nat} (known : (c, code) ∈ controlEscapes) : IsEscape [c] [code]
  | byte {high low : Char} {code : Nat} (number : hexNumber? [high, low] = some code) :
      IsEscape ['x', high, low] [code]
  | unit {first second third fourth : Char} {code : Nat}
      (number : hexNumber? [first, second, third, fourth] = some code) :
      IsEscape ['u', first, second, third, fourth] [code]
  | codePoint {digits : List Char} {code : Nat} (nonempty : digits ≠ [])
      (number : hexNumber? digits = some code) (bounded : code ≤ 0x10FFFF) :
      IsEscape ('u' :: '{' :: (digits ++ ['}']))
        (if code < 0x10000 then [code] else charUnits (Char.ofNat code))
  | lineEnd {terminator : Char} (ends : terminator ∈ lineTerminators) : IsEscape [terminator] []
  | lineEndPair : IsEscape ['\r', '\n'] []

/-! ## Reading -/

/-- A character that stands for itself between single quotes. -/
def isLiteral (c : Char) : Bool :=
  c != '\'' && c != '\\' && c != '\n' && c != '\r'

/-- A text that starts with the rest of a literal through its closing quote, the value of this
rest in code units, and what follows the quote. -/
inductive ReadsLiteral : List Char → List Nat → List Char → Prop
  | close (after : List Char) : ReadsLiteral ('\'' :: after) [] after
  | literal {c : Char} {text after : List Char} {value : List Nat} (isLiteral : isLiteral c = true)
      (behind : ReadsLiteral text value after) :
      ReadsLiteral (c :: text) (charUnits c ++ value) after
  | escape {sequence text after : List Char} {units value : List Nat}
      (isEscape : IsEscape sequence units) (behind : ReadsLiteral text value after) :
      ReadsLiteral ('\\' :: (sequence ++ text)) (units ++ value) after
  | null {text after : List Char} {value : List Nat}
      (noDigit : ∀ c ∈ text.head?, c.isDigit = false) (behind : ReadsLiteral text value after) :
      ReadsLiteral ('\\' :: '0' :: text) (0 :: value) after

/-- Text of such characters is read as itself. -/
theorem readsLiteral_of_isLiteral {text : List Char} (all : ∀ c ∈ text, isLiteral c = true)
    (after : List Char) : ReadsLiteral (text ++ '\'' :: after) (units text) after := by
  induction text with
  | nil => exact .close after
  | cons c rest inductionHypothesis =>
      obtain ⟨first, others⟩ := List.forall_mem_cons.1 all
      exact .literal first (inductionHypothesis others)

/-- Without a backslash nothing else is read through its last character. -/
theorem isLiteral_of_readsLiteral {text : List Char} (noBackslash : '\\' ∉ text)
    {value : List Nat} (reads : ReadsLiteral (text ++ ['\'']) value []) :
    (∀ c ∈ text, isLiteral c = true) ∧ value = units text := by
  induction text generalizing value with
  | nil =>
      generalize whole : [] ++ ['\''] = all at reads
      cases reads with
      | close => exact ⟨List.forall_mem_nil _, rfl⟩
      | literal isLiteral behind =>
          rw [← (List.cons.inj whole).1] at isLiteral
          contradiction
      | escape isEscape behind => exact absurd (List.cons.inj whole).1 (by decide)
      | null noDigit behind => exact absurd (List.cons.inj whole).1 (by decide)
  | cons c rest inductionHypothesis =>
      rw [List.mem_cons, not_or] at noBackslash
      generalize whole : c :: rest ++ ['\''] = all at reads
      cases reads with
      | close after => simp at whole
      | literal isLiteral behind =>
          rw [List.cons_append, List.cons.injEq] at whole
          obtain ⟨rfl, rfl⟩ := whole
          obtain ⟨others, rfl⟩ := inductionHypothesis noBackslash.2 behind
          exact ⟨List.forall_mem_cons.2 ⟨isLiteral, others⟩, rfl⟩
      | escape isEscape behind => exact absurd (List.cons.inj whole).1.symm noBackslash.1
      | null noDigit behind => exact absurd (List.cons.inj whole).1.symm noBackslash.1

theorem readsLiteral_iff {text : List Char} (noBackslash : '\\' ∉ text) (value : List Nat) :
    ReadsLiteral (text ++ ['\'']) value [] ↔
      value = units text ∧ ∀ c ∈ text, c ∉ ['\'', '\n', '\r'] := by
  have sameCharacters : (∀ c ∈ text, isLiteral c = true) ↔ ∀ c ∈ text, c ∉ ['\'', '\n', '\r'] := by
    refine forall₂_congr fun c member => ?_
    have notBackslash : c ≠ '\\' := fun same => noBackslash (same ▸ member)
    simp [isLiteral, notBackslash, and_assoc]
  rw [← sameCharacters]
  constructor
  · exact fun reads => (isLiteral_of_readsLiteral noBackslash reads).symm
  · rintro ⟨rfl, all⟩
    exact readsLiteral_of_isLiteral all []

end VirtualBlocks.Text
