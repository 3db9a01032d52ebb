import Mathlib.Tactic.Ring
import VirtualBlocks.SourceMap.Vlq

/-!
Contract: base 64 variable-length quantities, read back.

Owns:
- reading the integers of a text, one digit after the other;
- that the integers that are written are the ones that are read;
- the characters that digits are written in.

Does not own: what the integers of a segment mean (`Proofs.SourceMap.Mappings`).
-/

namespace VirtualBlocks.Vlq

/-! ## Reading -/

/-- The value of a digit: its position in the alphabet. -/
def digitValue? (c : Char) : Option Nat :=
  alphabet.idxOf? c

/-- The integer whose sign is the lowest bit of a number. -/
def unzigzag (value : Nat) : Int :=
  if value % 2 = 0 then Int.ofNat (value / 2) else -Int.ofNat (value / 2)

/-- The integers of a text. The digits of the first one that have been read amount to
`sum`, and its next digit counts `weight`. -/
def decodeFrom? (sum weight : Nat) : List Char → Option (List Int)
  | [] => if weight = 1 then some [] else none
  | c :: rest =>
      match digitValue? c with
      | none => none
      | some digit =>
          let total := sum + digit % 32 * weight
          if digit < 32 then (decodeFrom? 0 1 rest).map (unzigzag total :: ·)
          else decodeFrom? total (weight * 32) rest

/-- The integers of a text, if it ends with the last digit of one. -/
def decode? (text : List Char) : Option (List Int) :=
  decodeFrom? 0 1 text

/-! ## Digits -/

theorem digitValue?_digitChar {digit : Nat} (small : digit < 64) :
    digitValue? (digitChar digit) = some digit := by
  have all : ∀ digit < 64, digitValue? (digitChar digit) = some digit := by
    decide +kernel
  exact all digit small

theorem digitChar_mem_alphabet (digit : Nat) : digitChar digit ∈ alphabet := by
  unfold digitChar
  rw [List.getD_eq_getElem?_getD]
  cases found : alphabet[digit]? with
  | none => decide
  | some c => exact List.mem_of_getElem? found

/-- A character that is no digit is in no written integer. -/
theorem notMem_encode {c : Char} (noDigit : c ∉ alphabet) (value : Int) : c ∉ encode value := by
  intro member
  obtain ⟨digit, -, rfl⟩ := List.mem_map.1 member
  exact noDigit (digitChar_mem_alphabet digit)

/-! ## Reading what is written -/

theorem unzigzag_zigzag (value : Int) : unzigzag (zigzag value) = value := by
  unfold unzigzag
  cases value with
  | ofNat value =>
      have even : 2 * value % 2 = 0 := by omega
      have half : 2 * value / 2 = value := by omega
      rw [zigzag, if_pos even, half]
  | negSucc value =>
      have odd : ¬ (2 * (value + 1) + 1) % 2 = 0 := by omega
      have half : (2 * (value + 1) + 1) / 2 = value + 1 := by omega
      rw [zigzag, if_neg odd, half]
      rfl

/-- Digits add up to their number, each counting 32 times what the one before it
counts. -/
theorem decodeFrom?_digits (sum weight value : Nat) (rest : List Char) :
    decodeFrom? sum weight ((digits value).map digitChar ++ rest) =
      (decode? rest).map (unzigzag (sum + value * weight) :: ·) := by
  fun_induction digits value generalizing sum weight with
  | case1 value small =>
      have read := @digitValue?_digitChar value (by omega)
      have whole : value % 32 = value := Nat.mod_eq_of_lt small
      simp [decodeFrom?, read, small, whole, decode?]
  | case2 value large inductionHypothesis =>
      have read := @digitValue?_digitChar (value % 32 + 32) (by omega)
      have continued : ¬ value % 32 + 32 < 32 := by omega
      have low : (value % 32 + 32) % 32 = value % 32 := by omega
      have total : sum + value % 32 * weight + value / 32 * (weight * 32) =
          sum + value * weight := by
        have divided := Nat.mod_add_div value 32
        calc sum + value % 32 * weight + value / 32 * (weight * 32)
            = sum + (value % 32 + 32 * (value / 32)) * weight := by ring
          _ = sum + value * weight := by rw [divided]
      rw [List.map_cons, List.cons_append, decodeFrom?, read]
      simp only [continued, low, if_false]
      rw [inductionHypothesis, total]

/-- The integers of a text that starts with a written integer. -/
theorem decode?_encode_append (value : Int) (rest : List Char) :
    decode? (encode value ++ rest) = (decode? rest).map (value :: ·) := by
  have read := decodeFrom?_digits 0 1 (zigzag value) rest
  rw [Nat.zero_add, Nat.mul_one, unzigzag_zigzag] at read
  exact read

/-- Integers that are written one after the other are read back. -/
theorem decode?_flatMap_encode (values : List Int) :
    decode? (values.flatMap encode) = some values := by
  induction values with
  | nil => rfl
  | cons value rest inductionHypothesis =>
      rw [List.flatMap_cons, decode?_encode_append, inductionHypothesis, Option.map_some]

end VirtualBlocks.Vlq
