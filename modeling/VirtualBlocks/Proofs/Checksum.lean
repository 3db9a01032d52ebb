import Mathlib.Algebra.BigOperators.Fin
import Mathlib.Tactic.Ring
import VirtualBlocks.Checksum

/-!
Contract: the checksum in closed form.

Owns:
- the value of a run modulo `2 ^ 32`: the start and the code units, each weighted
  with a power of 31;
- every value that a run goes through, and a bound on all of them;
- the digits of the checksum: eight of them, or nine for the one number that does
  not fit into eight.

Does not own: the texts that scope ids are checksums of (`ScopeId`).
-/

namespace VirtualBlocks.Checksum

open Text

/-! ## Code units -/

theorem lt_of_mem_units {text : List Char} {unit : Nat} (member : unit ∈ units text) :
    unit < 0x10000 := by
  obtain ⟨c, -, inChar⟩ := List.mem_flatMap.1 member
  have valid : c.toNat.isValidChar := c.valid
  unfold Nat.isValidChar at valid
  unfold charUnits at inChar
  dsimp only at inChar
  split at inChar
  · rename_i single
    rw [List.mem_singleton.1 inChar]
    exact single
  · simp only [List.mem_cons, List.not_mem_nil, or_false] at inChar
    omega

theorem units_ne_nil {text : List Char} (nonempty : text ≠ []) : units text ≠ [] := by
  obtain ⟨c, rest, rfl⟩ := List.exists_cons_of_ne_nil nonempty
  unfold units charUnits
  dsimp only
  rw [List.flatMap_cons]
  split <;> exact List.cons_ne_nil _ _

/-! ## The sum of a run -/

/-- The start and the units, each weighted with 31 to the number of units behind it. -/
def weighted (start : Int) (units : List Nat) : Int :=
  start * 31 ^ units.length +
    ∑ position : Fin units.length, (units[position] : Int) * 31 ^ (units.length - 1 - position)

/-- The weighted sum in the range of signed 32-bit numbers. -/
def residue (start : Int) (units : List Nat) : Int :=
  (weighted start units).bmod (2 ^ 32)

theorem weighted_cons (start : Int) (unit : Nat) (rest : List Nat) :
    weighted start (unit :: rest) = weighted (start * 31 + unit) rest := by
  show start * 31 ^ (rest.length + 1) + ∑ position : Fin (rest.length + 1),
    ((unit :: rest)[position] : Int) * 31 ^ (rest.length + 1 - 1 - position) = _
  unfold weighted
  rw [Fin.sum_univ_succ]
  simp only [Fin.getElem_fin, Fin.val_zero, Fin.val_succ,
    List.getElem_cons_zero, List.getElem_cons_succ, Nat.add_sub_cancel, Nat.sub_zero, pow_succ]
  have behind (position : Fin rest.length) :
      rest.length - (position.val + 1) = rest.length - 1 - position.val := by
    omega
  simp only [behind]
  ring

theorem step_eq (value : Int) (unit : Nat) :
    step value unit = (value * 31 + unit).bmod (2 ^ 32) := by
  have whole : value * 32 - value + unit = value * 31 + unit := by ring
  unfold step advanced shifted signedWord words
  rw [Int.bmod_mul_bmod, Int.sub_eq_add_neg, Int.add_assoc, Int.bmod_add_bmod, ← Int.add_assoc,
    ← Int.sub_eq_add_neg, whole]
  rfl

/-- A start may be cut before it is weighted. -/
theorem residue_bmod (start : Int) (units : List Nat) :
    residue (start.bmod (2 ^ 32)) units = residue start units := by
  unfold residue weighted
  rw [← Int.bmod_add_bmod, Int.bmod_mul_bmod, Int.bmod_add_bmod]

/-- The units of a text lead to the residue of their sum. -/
theorem foldl_step (start : Int) {units : List Nat} (nonempty : units ≠ []) :
    units.foldl step start = residue start units := by
  induction units generalizing start with
  | nil => exact absurd rfl nonempty
  | cons unit rest inductionHypothesis =>
      have further : residue (step start unit) rest = residue start (unit :: rest) := by
        rw [step_eq, residue_bmod]
        unfold residue
        rw [weighted_cons]
      rw [List.foldl_cons, ← further]
      cases rest with
      | nil =>
          rw [step_eq, residue_bmod]
          simp [residue, weighted]
      | cons next others => exact inductionHypothesis (step start unit) (List.cons_ne_nil _ _)

/-! ## Bounds -/

theorem signedWord_bounds (value : Int) :
    -2 ^ 31 ≤ signedWord value ∧ signedWord value < 2 ^ 31 := by
  have positive : 0 < words := by decide
  exact ⟨Int.le_bmod positive, Int.bmod_lt positive⟩

/-- The values that a running value can have: the start of a run may be one more than
what fits into 32 bits. -/
def IsRunning (value : Int) : Prop :=
  -2 ^ 31 ≤ value ∧ value ≤ 2 ^ 32

theorem isRunning_step (value : Int) (unit : Nat) : IsRunning (step value unit) := by
  obtain ⟨low, high⟩ := signedWord_bounds (advanced value unit)
  exact ⟨low, by unfold step; omega⟩

/-- A run ends in a number that is not negative. -/
theorem finish_bounds {value : Int} (low : -2 ^ 31 ≤ value) (high : value < 2 ^ 31) :
    0 ≤ finish value ∧ finish value ≤ 2 ^ 32 ∧ (finish value = 2 ^ 32 ↔ value = -2 ^ 31) := by
  unfold finish
  split <;> omega

/-- The values that a run goes through, in order: in each step the running value, the
shifted one, their difference and its sum with the unit, and at last the running value
and the end of the run. -/
def passed (value : Int) : List Nat → List Int
  | [] => [value, finish value]
  | unit :: rest =>
      value :: shifted value :: (shifted value - value) :: advanced value unit ::
        passed (step value unit) rest

theorem getLast?_passed (value : Int) (units : List Nat) :
    (passed value units).getLast? = some (finish (units.foldl step value)) := by
  induction units generalizing value with
  | nil => rfl
  | cons unit rest inductionHypothesis =>
      have further := inductionHypothesis (step value unit)
      unfold passed
      simp only [List.getLast?_cons, further, Option.getD_some, List.foldl_cons]

/-- Nothing that a step computes comes near the limits of 64 bits. -/
theorem step_bounds {value : Int} (running : IsRunning value) {unit : Nat}
    (isUnit : unit < 0x10000) :
    |value| < 2 ^ 34 ∧ |shifted value| < 2 ^ 34 ∧ |shifted value - value| < 2 ^ 34 ∧
      |advanced value unit| < 2 ^ 34 := by
  obtain ⟨low, high⟩ := running
  obtain ⟨shiftedLow, shiftedHigh⟩ := signedWord_bounds (signedWord value * 32)
  unfold advanced shifted
  simp only [abs_lt]
  omega

theorem passed_bounds {value : Int} (running : IsRunning value) {units : List Nat}
    (areUnits : ∀ unit ∈ units, unit < 0x10000) :
    ∀ computed ∈ passed value units, |computed| < 2 ^ 34 := by
  induction units generalizing value with
  | nil =>
      obtain ⟨low, high⟩ := running
      unfold passed finish
      simp only [List.mem_cons, List.not_mem_nil, or_false, forall_eq_or_imp, forall_eq, abs_lt]
      split <;> omega
  | cons unit rest inductionHypothesis =>
      obtain ⟨isUnit, others⟩ := List.forall_mem_cons.1 areUnits
      obtain ⟨whole, shifted, difference, advanced⟩ := step_bounds running isUnit
      unfold passed
      simp only [List.forall_mem_cons]
      exact ⟨whole, shifted, difference, advanced,
        inductionHypothesis (isRunning_step value unit) others⟩

/-! ## The value of a text -/

theorem fold_nil (start : Int) : fold start [] = start := rfl

theorem fold_of_ne_nil (start : Int) {text : List Char} (nonempty : text ≠ []) :
    fold start text = finish (residue start (units text)) := by
  unfold fold
  rw [if_neg (by simpa using nonempty), foldl_step start (units_ne_nil nonempty)]

theorem residue_bounds (start : Int) (units : List Nat) :
    -2 ^ 31 ≤ residue start units ∧ residue start units < 2 ^ 31 :=
  signedWord_bounds (weighted start units)

theorem fold_bounds {start : Int} (low : 0 ≤ start) (high : start ≤ 2 ^ 32) (text : List Char) :
    0 ≤ fold start text ∧ fold start text ≤ 2 ^ 32 := by
  by_cases empty : text = []
  · rw [empty]
    exact ⟨low, high⟩
  · obtain ⟨residueLow, residueHigh⟩ := residue_bounds start (units text)
    obtain ⟨bottom, top, -⟩ := finish_bounds residueLow residueHigh
    rw [fold_of_ne_nil start empty]
    exact ⟨bottom, top⟩

/-! ## Digits -/

def hexDigits : List Char := "0123456789abcdef".toList

theorem hexDigits_getElem? {digit : Nat} (small : digit < 16) :
    hexDigits[digit]? = some digit.digitChar := by
  have all : ∀ digit < 16, hexDigits[digit]? = some digit.digitChar := by decide
  exact all digit small

/-- The digits of a number behind as many zeros as there are places left. -/
def padded (places value : Nat) : List Char :=
  List.replicate (places - (Nat.toDigits 16 value).length) '0' ++ Nat.toDigits 16 value

theorem padded_succ {places : Nat} (positive : 0 < places) (value : Nat) :
    padded (places + 1) value = padded places (value / 16) ++ [(value % 16).digitChar] := by
  unfold padded
  by_cases single : value < 16
  · have noFront : value / 16 = 0 := Nat.div_eq_of_lt single
    have fewer : places + 1 - 1 = (places - 1) + 1 := by omega
    rw [noFront, Nat.mod_eq_of_lt single, Nat.toDigits_of_lt_base single, Nat.toDigits_zero]
    simp only [List.length_singleton]
    rw [fewer, List.replicate_succ', List.append_assoc]
  · have split := Nat.toDigits_of_base_le (by decide : 1 < 16) (Nat.le_of_not_lt single)
    rw [split, List.length_append, List.length_singleton, Nat.add_sub_add_right,
      List.append_assoc]

/-- With enough places the digits count the powers of 16 one by one. -/
theorem padded_eq {places value : Nat} (positive : 0 < places) (small : value < 16 ^ places) :
    padded places value =
      (List.range places).map
        (fun place => (value / 16 ^ (places - 1 - place) % 16).digitChar) := by
  induction places, positive using Nat.le_induction generalizing value with
  | base =>
      have single : value < 16 := by simpa using small
      unfold padded
      rw [Nat.toDigits_of_lt_base single]
      simp [Nat.mod_eq_of_lt single]
  | succ places positive inductionHypothesis =>
      have front : value / 16 < 16 ^ places := by
        rw [Nat.div_lt_iff_lt_mul (by decide)]
        rwa [pow_succ] at small
      rw [padded_succ positive, inductionHypothesis front, List.range_succ, List.map_append]
      congr 1
      · apply List.map_congr_left
        intro place member
        have inFront : place < places := List.mem_range.1 member
        have further : places + 1 - 1 - place = (places - 1 - place) + 1 := by omega
        rw [Nat.div_div_eq_div_mul, further, pow_succ']
      · simp

/-- A number below `2 ^ 32` has eight digits. -/
theorem hexadecimal_of_lt {value : Nat} (small : value < 2 ^ 32) :
    (hexadecimal value).length = 8 ∧
      ∀ place < 8, (hexadecimal value)[place]? = hexDigits[value / 16 ^ (7 - place) % 16]? := by
  have digits : hexadecimal value =
      (List.range 8).map (fun place => (value / 16 ^ (7 - place) % 16).digitChar) :=
    padded_eq (by decide) small
  rw [digits]
  refine ⟨by simp, ?_⟩
  intro place inRange
  rw [hexDigits_getElem? (Nat.mod_lt _ (by decide)), List.getElem?_map,
    List.getElem?_range inRange]
  rfl

theorem hexadecimal_top : hexadecimal (2 ^ 32) = "100000000".toList := by
  decide +kernel

/-! ## The checksum -/

/-- The value that the fixed texts leave for the run over the text itself. -/
def seed : Int :=
  fold (fold (fold 0 "".toList) "[object String]".toList) "string".toList

theorem seed_bounds : 0 ≤ seed ∧ seed < 2 ^ 32 := by
  decide +kernel

/-- The value of a text is its weighted sum in the range of signed 32-bit numbers, where
a negative one is doubled and made positive, and no value on the way to it leaves 34
bits. The checksum writes the value that follows on three fixed texts: with eight
digits, or with nine of them exactly when the last sum is the least of its range. -/
theorem checksum_closed_form :
    (∀ start : Int, 0 ≤ start → start ≤ 2 ^ 32 → ∀ text : List Char, text ≠ [] →
      let sum := residue start (units text)
      fold start text = (if 0 ≤ sum then sum else -2 * sum) ∧
        (passed start (units text)).getLast? = some (fold start text) ∧
        ∀ computed ∈ passed start (units text), |computed| < 2 ^ 34) ∧
    (∀ start : Int, fold start [] = start) ∧
    (0 ≤ seed ∧ seed ≤ 2 ^ 32) ∧
    ∀ text : String,
      ∃ number : Nat, (number : Int) = fold seed text.toList ∧
        if text ≠ "" ∧ residue seed (units text.toList) = -2 ^ 31 then
          number = 2 ^ 32 ∧ ofText text = "100000000"
        else
          number < 2 ^ 32 ∧ (ofText text).toList.length = 8 ∧
            ∀ place < 8, (ofText text).toList[place]? =
              hexDigits[number / 16 ^ (7 - place) % 16]? := by
  refine ⟨?_, fold_nil, ⟨seed_bounds.1, seed_bounds.2.le⟩, ?_⟩
  · intro start low high text nonempty sum
    have value := fold_of_ne_nil start nonempty
    have running : IsRunning start := ⟨by omega, high⟩
    refine ⟨?_, ?_, passed_bounds running (fun unit member => lt_of_mem_units member)⟩
    · rw [value]
      unfold finish
      split <;> split <;> omega
    · rw [getLast?_passed, value, foldl_step start (units_ne_nil nonempty)]
  · intro text
    obtain ⟨low, high⟩ := fold_bounds seed_bounds.1 seed_bounds.2.le text.toList
    have isNumber : ((fold seed text.toList).toNat : Int) = fold seed text.toList :=
      Int.toNat_of_nonneg low
    have written : (ofText text).toList = hexadecimal (fold seed text.toList).toNat := by
      unfold ofText
      rw [String.toList_ofList]
      rfl
    refine ⟨(fold seed text.toList).toNat, isNumber, ?_⟩
    have top_iff : fold seed text.toList = 2 ^ 32 ↔
        text ≠ "" ∧ residue seed (units text.toList) = -2 ^ 31 := by
      by_cases empty : text = ""
      · have untouched : fold seed "".toList = seed := fold_nil seed
        rw [empty, untouched]
        exact ⟨fun top => absurd top seed_bounds.2.ne, fun top => absurd rfl top.1⟩
      · obtain ⟨residueLow, residueHigh⟩ := residue_bounds seed (units text.toList)
        rw [fold_of_ne_nil seed (by simpa using empty),
          (finish_bounds residueLow residueHigh).2.2]
        exact ⟨fun least => ⟨empty, least⟩, And.right⟩
    split
    · rename_i least
      have top := top_iff.2 least
      have isTop : (fold seed text.toList).toNat = 2 ^ 32 := by omega
      refine ⟨isTop, String.toList_inj.1 ?_⟩
      rw [written, isTop, hexadecimal_top]
    · rename_i notLeast
      have notTop := mt top_iff.1 notLeast
      have small : (fold seed text.toList).toNat < 2 ^ 32 := by omega
      rw [written]
      exact ⟨small, hexadecimal_of_lt small⟩

/-- Three surrogate pairs, from the highest start, have a negative sum. -/
theorem checksum_closed_form_surrogates :
    let start : Int := 2 ^ 32
    0 ≤ start ∧ start ≤ 2 ^ 32 ∧ "😀😀😀".toList ≠ [] ∧
      residue start (units "😀😀😀".toList) = -1662520855 ∧
      fold start "😀😀😀".toList = 3325041710 := by
  intro start
  have value := (checksum_closed_form.1 start (by decide) (by decide) "😀😀😀".toList
    (by decide)).1
  have sum : residue start (units "😀😀😀".toList) = -1662520855 := by
    decide +kernel
  refine ⟨by decide, by decide, by decide, sum, ?_⟩
  rw [value, sum]
  rfl

example : ofText "héllo 😀" = "6f3fa6eb" := by
  decide +kernel

end VirtualBlocks.Checksum
