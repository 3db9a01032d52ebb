import VirtualBlocks.Proofs.SourceMap.Vlq

/-!
Contract: integers that are words of 64 bits, written with the operations of words.

Owns:
- the sign moved into the lowest bit of a word, an overflow on the way told apart;
- the loop that writes the digits of a word, as the runs of it that come to an end;
- which words are written, and that their texts are those of the integers;
- texts of integers one after the other, which are read back in one way only.

Does not own: the rules of reading (`Proofs.SourceMap.Vlq`).
-/

namespace VirtualBlocks.Vlq

/-! ## Operations of words -/

/-- The result of an operation on words, if it is the number that the operation gives
on numbers. -/
def checked? (result : Int64) (number : Int) : Option Int64 :=
  if result.toInt = number then some result else none

theorem checked?_eq_some_iff {result word : Int64} {number : Int}
    (agrees : result = Int64.ofInt number) :
    checked? result number = some word ↔ word.toInt = number := by
  unfold checked?
  constructor
  · intro isWord
    split at isWord
    · rename_i same
      rw [← Option.some.inj isWord]
      exact same
    · contradiction
  · rintro rfl
    rw [Int64.ofInt_toInt] at agrees
    rw [agrees, if_pos rfl]

theorem lt_zero_iff (word : Int64) : word < 0 ↔ word.toInt < 0 := by
  rw [Int64.lt_iff_toInt_lt, Int64.toInt_zero]

theorem neg_eq_ofInt (word : Int64) : -word = Int64.ofInt (-word.toInt) := by
  rw [Int64.ofInt_neg, Int64.ofInt_toInt]

theorem shiftLeft_eq_ofInt (word : Int64) : word <<< 1 = Int64.ofInt (2 * word.toInt) := by
  have amount : (1 : Int64).toBitVec.smod 64 = 1 := by decide
  apply Int64.toBitVec_inj.1
  rw [Int64.ofInt_mul, Int64.ofInt_toInt, Int64.toBitVec_shiftLeft, amount, Int64.toBitVec_mul]
  exact (BitVec.twoPow_mul_eq_shiftLeft word.toBitVec 1).symm

theorem toInt_shiftRight (word : Int64) : (word >>> 5).toInt = word.toInt / 32 := by
  have amount : ((5 : Int64).toBitVec.smod 64).toNat = 5 := by decide
  rw [← Int64.toInt_toBitVec, Int64.toBitVec_shiftRight, BitVec.toInt_sshiftRight', amount,
    Int.shiftRight_eq_div_pow]
  rfl

theorem toNat_toBitVec (word : Int64) : (word.toBitVec.toNat : Int) = word.toInt % 2 ^ 64 := by
  have signed := BitVec.toInt_eq_toNat_cond word.toBitVec
  rw [Int64.toInt_toBitVec] at signed
  omega

theorem toInt_of_toNat_lt {word : Int64} (small : word.toBitVec.toNat < 2 ^ 63) :
    word.toInt = word.toBitVec.toNat := by
  rw [← Int64.toInt_toBitVec]
  exact BitVec.toInt_eq_toNat_of_lt (by omega)

theorem toInt_lowBits (word : Int64) : (word &&& 31).toInt = word.toInt % 32 := by
  have low : (word &&& 31).toBitVec.toNat = word.toBitVec.toNat % 32 := by
    rw [Int64.toBitVec_and, BitVec.toNat_and]
    exact Nat.and_two_pow_sub_one_eq_mod word.toBitVec.toNat 5
  have whole := toNat_toBitVec word
  rw [toInt_of_toNat_lt (by omega)]
  omega

theorem toInt_or_one {word : Int64} {half : Nat} (even : word.toInt = 2 * half) :
    (word ||| 1).toInt = word.toInt + 1 := by
  have bound := word.toInt_lt
  have whole := toNat_toBitVec word
  have twice : word.toBitVec.toNat = 2 ^ 1 * half := by omega
  have next : (word ||| 1).toBitVec.toNat = word.toBitVec.toNat + 1 := by
    rw [Int64.toBitVec_or, BitVec.toNat_or, twice]
    exact (Nat.two_pow_add_eq_or_of_lt (by decide) half).symm
  rw [toInt_of_toNat_lt (by omega)]
  omega

/-! ## The sign -/

/-- A word with its sign moved into the lowest bit, unless that overflows. -/
def signMoved? (value : Int64) : Option Int64 :=
  if value < 0 then do
    let size ← checked? (-value) (-value.toInt)
    let doubled ← checked? (size <<< 1) (2 * size.toInt)
    return doubled ||| 1
  else checked? (value <<< 1) (2 * value.toInt)

theorem zigzag_of_nonneg {value : Int} (nonneg : 0 ≤ value) :
    (zigzag value : Int) = 2 * value := by
  obtain ⟨size, rfl⟩ := Int.eq_ofNat_of_zero_le nonneg
  rfl

theorem zigzag_of_neg {value : Int} (negative : value < 0) :
    (zigzag value : Int) = 2 * -value + 1 := by
  obtain ⟨size, rfl⟩ := Int.eq_negSucc_of_lt_zero negative
  rw [zigzag, Int.neg_negSucc]
  rfl

theorem signMoved?_of_nonneg {value word : Int64} (nonneg : 0 ≤ value.toInt) :
    signMoved? value = some word ↔ word.toInt = 2 * value.toInt := by
  have notNegative : ¬ value < 0 := by
    rw [lt_zero_iff]
    omega
  unfold signMoved?
  rw [if_neg notNegative, checked?_eq_some_iff (shiftLeft_eq_ofInt value)]

theorem signMoved?_of_neg {value word : Int64} (negative : value.toInt < 0) :
    signMoved? value = some word ↔
      ∃ doubled : Int64, doubled.toInt = 2 * -value.toInt ∧ doubled ||| 1 = word := by
  unfold signMoved?
  rw [if_pos ((lt_zero_iff value).2 negative)]
  simp only [Option.bind_eq_bind, Option.bind_eq_some_iff, Option.pure_def, Option.some.injEq,
    checked?_eq_some_iff (neg_eq_ofInt _), checked?_eq_some_iff (shiftLeft_eq_ofInt _)]
  constructor
  · rintro ⟨size, isSize, doubled, isDoubled, isWord⟩
    exact ⟨doubled, isSize ▸ isDoubled, isWord⟩
  · rintro ⟨doubled, isDoubled, isWord⟩
    have bound := doubled.toInt_lt
    have isSize := Int64.toInt_ofInt_of_le (n := -value.toInt) (by omega) (by omega)
    exact ⟨Int64.ofInt (-value.toInt), isSize, doubled, by rw [isSize, isDoubled], isWord⟩

/-- The sign is moved without an overflow exactly when one bit is left for it. -/
theorem signMoved?_eq_some_iff {value word : Int64} :
    signMoved? value = some word ↔
      value.toInt.natAbs < 2 ^ 62 ∧ word.toInt = zigzag value.toInt := by
  by_cases nonneg : 0 ≤ value.toInt
  · rw [signMoved?_of_nonneg nonneg, zigzag_of_nonneg nonneg]
    have bound := word.toInt_lt
    omega
  · have negative : value.toInt < 0 := by omega
    rw [signMoved?_of_neg negative, zigzag_of_neg negative]
    constructor
    · rintro ⟨doubled, isDoubled, rfl⟩
      -- that the doubled size is a word bounds the size
      have bound := doubled.toInt_lt
      have next := @toInt_or_one doubled value.toInt.natAbs (by omega)
      omega
    · rintro ⟨bounded, isWord⟩
      have isDoubled := Int64.toInt_ofInt_of_le (n := 2 * -value.toInt) (by omega) (by omega)
      have next := @toInt_or_one (Int64.ofInt (2 * -value.toInt)) value.toInt.natAbs (by omega)
      refine ⟨Int64.ofInt (2 * -value.toInt), isDoubled, Int64.toInt_inj.1 ?_⟩
      rw [next, isDoubled, isWord]

/-! ## The loop -/

/-- The digit that one turn of the loop writes: the low five bits, marked by 32 when
bits are left. -/
def turnDigit (word : Int64) : Nat :=
  let bits := (word &&& 31).toInt.toNat
  if (0 : Int64) < word >>> 5 then bits ||| 32 else bits

/-- The runs of the loop that end: from a word, and with the text that is written. -/
inductive WritesDigits : Int64 → List Char → Prop
  | last {word : Int64} {c : Char} (digit : alphabet[turnDigit word]? = some c)
      (done : word >>> 5 = 0) : WritesDigits word [c]
  | more {word : Int64} {c : Char} {text : List Char}
      (digit : alphabet[turnDigit word]? = some c) (left : word >>> 5 ≠ 0)
      (behind : WritesDigits (word >>> 5) text) : WritesDigits word (c :: text)

theorem shiftRight_eq_zero_iff (word : Int64) :
    word >>> 5 = 0 ↔ 0 ≤ word.toInt ∧ word.toInt < 32 := by
  rw [← Int64.toInt_inj, toInt_shiftRight, Int64.toInt_zero]
  omega

theorem shiftRight_pos_iff (word : Int64) : (0 : Int64) < word >>> 5 ↔ 32 ≤ word.toInt := by
  rw [Int64.lt_iff_toInt_lt, toInt_shiftRight, Int64.toInt_zero]
  omega

theorem turnDigit_of_lt {word : Int64} {number : Nat} (isNumber : word.toInt = number)
    (small : number < 32) : turnDigit word = number := by
  have nothingLeft : ¬ (0 : Int64) < word >>> 5 := by
    rw [shiftRight_pos_iff]
    omega
  unfold turnDigit
  rw [if_neg nothingLeft, toInt_lowBits]
  omega

theorem turnDigit_of_not_lt {word : Int64} {number : Nat} (isNumber : word.toInt = number)
    (large : ¬ number < 32) : turnDigit word = number % 32 + 32 := by
  have left := (shiftRight_pos_iff word).2 (by omega)
  have bits : (word &&& 31).toInt.toNat = number % 32 := by
    rw [toInt_lowBits]
    omega
  have marked : 32 + number % 32 = 32 ||| number % 32 :=
    Nat.two_pow_add_eq_or_of_lt (i := 5) (Nat.mod_lt number (by decide)) 1
  unfold turnDigit
  rw [if_pos left, bits, Nat.or_comm, ← marked, Nat.add_comm]

theorem getElem?_alphabet {digit : Nat} (small : digit < 64) :
    alphabet[digit]? = some (digitChar digit) := by
  have within : digit < alphabet.length := small
  unfold digitChar
  rw [List.getD_eq_getElem?_getD, List.getElem?_eq_getElem within, Option.getD_some]

theorem writesDigits_of_toInt {word : Int64} {number : Nat} (isNumber : word.toInt = number) :
    WritesDigits word ((digits number).map digitChar) := by
  fun_induction digits number generalizing word with
  | case1 number small =>
      refine .last ?_ ((shiftRight_eq_zero_iff word).2 (by omega))
      rw [turnDigit_of_lt isNumber small]
      exact getElem?_alphabet (by omega)
  | case2 number large inductionHypothesis =>
      have isRest : (word >>> 5).toInt = (number / 32 : Nat) := by
        rw [toInt_shiftRight, isNumber]
        rfl
      have left : word >>> 5 ≠ 0 := by
        rw [Ne, shiftRight_eq_zero_iff]
        omega
      refine .more ?_ left (inductionHypothesis isRest)
      rw [turnDigit_of_not_lt isNumber large]
      exact getElem?_alphabet (by omega)

theorem WritesDigits.nonneg {word : Int64} {text : List Char} (writes : WritesDigits word text) :
    0 ≤ word.toInt := by
  induction writes with
  | last digit done => exact ((shiftRight_eq_zero_iff _).1 done).1
  | more digit left behind inductionHypothesis =>
      rw [toInt_shiftRight] at inductionHypothesis
      omega

theorem WritesDigits.unique {word : Int64} {first second : List Char}
    (writesFirst : WritesDigits word first) (writesSecond : WritesDigits word second) :
    first = second := by
  induction writesFirst generalizing second with
  | last digit done =>
      cases writesSecond with
      | last otherDigit => rw [Option.some.inj (digit.symm.trans otherDigit)]
      | more _ left => exact absurd done left
  | more digit left behind inductionHypothesis =>
      cases writesSecond with
      | last _ done => exact absurd done left
      | more otherDigit _ otherBehind =>
          rw [Option.some.inj (digit.symm.trans otherDigit), inductionHypothesis otherBehind]

/-- The loop ends exactly for a word that is not negative, and then it has written the
digits of its number. -/
theorem writesDigits_iff {word : Int64} {text : List Char} :
    WritesDigits word text ↔
      ∃ number : Nat, word.toInt = number ∧ text = (digits number).map digitChar := by
  constructor
  · intro writes
    obtain ⟨number, isNumber⟩ := Int.eq_ofNat_of_zero_le writes.nonneg
    exact ⟨number, isNumber, writes.unique (writesDigits_of_toInt isNumber)⟩
  · rintro ⟨number, isNumber, rfl⟩
    exact writesDigits_of_toInt isNumber

/-! ## Whole words -/

/-- A word is written as a text: its sign is moved without an overflow, and the loop ends
with the text. -/
def WritesWord (value : Int64) (text : List Char) : Prop :=
  ∃ word, signMoved? value = some word ∧ WritesDigits word text

/-- Words below `2 ^ 62` in size are written, and no others; the text of a word is that of
its integer. -/
theorem writesWord_iff {value : Int64} {text : List Char} :
    WritesWord value text ↔ value.toInt.natAbs < 2 ^ 62 ∧ text = encode value.toInt := by
  unfold WritesWord
  simp only [signMoved?_eq_some_iff, writesDigits_iff]
  constructor
  · rintro ⟨word, ⟨bounded, isWord⟩, number, isNumber, rfl⟩
    have same : number = zigzag value.toInt := by omega
    rw [same]
    exact ⟨bounded, rfl⟩
  · rintro ⟨bounded, rfl⟩
    have small : (zigzag value.toInt : Int) < 2 ^ 63 := by
      by_cases nonneg : 0 ≤ value.toInt
      · rw [zigzag_of_nonneg nonneg]
        omega
      · rw [zigzag_of_neg (by omega)]
        omega
    have isWord := Int64.toInt_ofInt_of_le (n := zigzag value.toInt) (by omega) small
    exact ⟨Int64.ofInt (zigzag value.toInt), ⟨bounded, isWord⟩, zigzag value.toInt, isWord, rfl⟩

theorem writesWord_ofInt_iff {value : Int} (bounded : value.natAbs < 2 ^ 62) {text : List Char} :
    WritesWord (Int64.ofInt value) text ↔ text = encode value := by
  rw [writesWord_iff, Int64.toInt_ofInt_of_le (by omega) (by omega)]
  exact and_iff_right bounded

/-! ## Texts of integers -/

theorem eq_of_encode_prefix {first second : Int} (starts : encode first <+: encode second) :
    first = second := by
  obtain ⟨rest, whole⟩ := starts
  have read := decode?_encode_append first rest
  rw [whole, ← List.append_nil (encode second), decode?_encode_append] at read
  obtain ⟨behind, -, same⟩ := Option.map_eq_some_iff.1 read.symm
  exact (List.cons.inj same).1

/-- Integers below `2 ^ 62` in size are written with operations on words of 64 bits that
do not overflow, by a loop that ends, and in digits of the alphabet. Their texts one after
the other are read back as these integers, and none of the texts starts with another. -/
theorem encode_uniquely_decodable {values : List Int}
    (bounded : ∀ value ∈ values, value.natAbs < 2 ^ 62) :
    (∀ value ∈ values, ∀ text, WritesWord (Int64.ofInt value) text ↔ text = encode value) ∧
      (∀ c ∈ values.flatMap encode, c ∈ alphabet) ∧
      decode? (values.flatMap encode) = some values ∧
      ∀ first ∈ values, ∀ second ∈ values, encode first <+: encode second → first = second := by
  refine ⟨?_, ?_, decode?_flatMap_encode values, ?_⟩
  · intro value member text
    exact writesWord_ofInt_iff (bounded value member)
  · intro c member
    obtain ⟨value, -, inText⟩ := List.mem_flatMap.1 member
    exact by_contra fun noDigit => notMem_encode noDigit value inText
  · intro first _ second _
    exact eq_of_encode_prefix

/-- The integers next to the bound, and two integers at the end of one digit. -/
theorem encode_uniquely_decodable_extremes :
    let values : List Int := [2 ^ 62 - 1, 15, 16, 1 - 2 ^ 62]
    (∀ value ∈ values, value.natAbs < 2 ^ 62) ∧
      WritesWord (Int64.ofInt (1 - 2 ^ 62)) "////////////H".toList ∧
      values.flatMap encode = "+///////////HegB////////////H".toList ∧
      decode? "+///////////HegB////////////H".toList = some values := by
  intro values
  have bounded : ∀ value ∈ values, value.natAbs < 2 ^ 62 := by decide
  have written : values.flatMap encode = "+///////////HegB////////////H".toList := by
    decide +kernel
  obtain ⟨writes, -, read, -⟩ := encode_uniquely_decodable bounded
  refine ⟨bounded, ?_, written, written ▸ read⟩
  exact (writes (1 - 2 ^ 62) (by decide) _).2 (by decide +kernel)

end VirtualBlocks.Vlq
