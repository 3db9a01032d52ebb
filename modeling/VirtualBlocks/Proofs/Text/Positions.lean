import VirtualBlocks.Text.Lines
import VirtualBlocks.Text.Units

/-!
Contract: places in a text, counted in UTF-8 bytes.

Owns:
- the offsets at which a text can be cut between two characters, and the slices
  between two of them;
- that whatever is left of a source starts at such an offset;
- reading bytes of a class: it stops between two characters when the class does
  not tell the characters outside ASCII apart.

Does not own: what is looked for in a text (`Text.Search`).
-/

namespace VirtualBlocks.Text

/-! ## Lengths in bytes and in lines -/

theorem byteLength_append (left right : List Char) :
    byteLength (left ++ right) = byteLength left + byteLength right := by
  induction left with
  | nil => rw [List.nil_append, byteLength, Nat.zero_add]
  | cons c rest inductionHypothesis =>
      rw [List.cons_append, byteLength, byteLength, inductionHypothesis, Nat.add_assoc]

theorem lineFeeds_append (left right : List Char) :
    lineFeeds (left ++ right) = lineFeeds left + lineFeeds right :=
  List.count_append

theorem length_le_byteLength (text : List Char) : text.length ≤ byteLength text := by
  induction text with
  | nil => exact Nat.le_refl 0
  | cons c rest inductionHypothesis =>
      have positive := c.utf8Size_pos
      rw [List.length_cons, byteLength]
      omega

theorem utf8ByteSize_ofList (text : List Char) :
    (String.ofList text).utf8ByteSize = byteLength text := by
  induction text with
  | nil => rfl
  | cons c rest inductionHypothesis =>
      have divided : String.ofList (c :: rest) = String.singleton c ++ String.ofList rest := by
        rw [String.singleton_eq_ofList, ← String.ofList_append, List.singleton_append]
      rw [divided, String.utf8ByteSize_append, String.utf8ByteSize_singleton,
        inductionHypothesis, byteLength]

theorem length_bytes (text : List Char) : (bytes text).length = byteLength text := by
  induction text with
  | nil => rfl
  | cons c rest inductionHypothesis =>
      unfold bytes at inductionHypothesis ⊢
      rw [List.flatMap_cons, List.length_append, String.length_utf8EncodeChar,
        inductionHypothesis, byteLength]

/-! ## Offsets and slices -/

/-- An offset at which a source can be cut: inside the source or at its end, and
not inside a character. -/
def IsOffset (source : String) (offset : Nat) : Prop :=
  (⟨offset⟩ : String.Pos.Raw).IsValid source

/-- The piece of a source between two offsets. -/
structure IsSlice (source piece : String) (start stop : Nat) : Prop where
  startIsOffset : IsOffset source start
  stopIsOffset : IsOffset source stop
  bytes : source.toByteArray.extract start stop = piece.toByteArray

/-- Where in a source the text that is left of it starts. -/
def offsetOf (source : String) (left : List Char) : Nat :=
  byteLength source.toList - byteLength left

section Cuts

variable {source : String} {before piece after left : List Char}

theorem isOffset_of_append (whole : source.toList = before ++ after) :
    IsOffset source (byteLength before) := by
  apply String.Pos.Raw.isValid_iff_exists_append.2
  refine ⟨String.ofList before, String.ofList after, ?_, ?_⟩
  · rw [← String.ofList_append, ← whole, String.ofList_toList]
  · apply String.Pos.Raw.ext
    rw [String.byteIdx_rawEndPos, utf8ByteSize_ofList]

theorem isSlice_of_append (whole : source.toList = before ++ (piece ++ after)) :
    IsSlice source (String.ofList piece) (byteLength before)
      (byteLength before + byteLength piece) := by
  have divided : source =
      String.ofList before ++ (String.ofList piece ++ String.ofList after) := by
    rw [← String.ofList_append, ← String.ofList_append, ← whole, String.ofList_toList]
  have sizes (text : List Char) : byteLength text = (String.ofList text).toByteArray.size := by
    rw [String.size_toByteArray, utf8ByteSize_ofList]
  apply IsSlice.mk
  · exact isOffset_of_append whole
  · rw [← byteLength_append]
    rw [← List.append_assoc] at whole
    exact isOffset_of_append whole
  · have behind := @ByteArray.extract_append_size_add' (String.ofList before).toByteArray
      (String.ofList piece ++ String.ofList after).toByteArray 0 (byteLength piece)
      (byteLength before) (sizes before)
    rw [Nat.add_zero] at behind
    rw [divided, String.toByteArray_append, behind, String.toByteArray_append,
      ByteArray.extract_append_eq_left (sizes piece)]

theorem offsetOf_of_append (whole : source.toList = before ++ left) :
    offsetOf source left = byteLength before := by
  unfold offsetOf
  rw [whole, byteLength_append]
  omega

theorem isOffset_offsetOf (within : left <:+ source.toList) :
    IsOffset source (offsetOf source left) := by
  obtain ⟨before, whole⟩ := within
  rw [offsetOf_of_append whole.symm]
  exact isOffset_of_append whole.symm

theorem offsetOf_add (within : piece ++ left <:+ source.toList) :
    offsetOf source (piece ++ left) + byteLength piece = offsetOf source left := by
  obtain ⟨before, whole⟩ := within
  rw [offsetOf_of_append whole.symm]
  rw [← List.append_assoc] at whole
  rw [offsetOf_of_append whole.symm, byteLength_append]

theorem isSlice_offsetOf (within : piece ++ left <:+ source.toList) :
    IsSlice source (String.ofList piece) (offsetOf source (piece ++ left))
      (offsetOf source left) := by
  rw [← offsetOf_add within]
  obtain ⟨before, whole⟩ := within
  rw [offsetOf_of_append whole.symm]
  exact isSlice_of_append whole.symm

theorem offsetOf_le_of_suffix {text : List Char} (shorter : left <:+ text) :
    offsetOf source text ≤ offsetOf source left := by
  obtain ⟨passed, rfl⟩ := shorter
  unfold offsetOf
  rw [byteLength_append]
  omega

theorem offsetOf_lt_of_append (within : piece ++ left <:+ source.toList)
    (nonempty : piece ≠ []) : offsetOf source (piece ++ left) < offsetOf source left := by
  have moved := offsetOf_add within
  have positive := List.length_pos_iff.2 nonempty
  have bytesOfPiece := length_le_byteLength piece
  omega

end Cuts

/-! ## Reading byte by byte -/

/-- A class of characters as a class of single bytes. A byte outside ASCII is
taken for the character of its number. -/
def ofByte (isIn : Char → Bool) (byte : UInt8) : Bool :=
  isIn (Char.ofNat byte.toNat)

/-- A class that holds all characters outside ASCII or none. -/
def IsAsciiClass (isIn : Char → Bool) : Prop :=
  ∀ c other : Char, 128 ≤ c.toNat → 128 ≤ other.toNat → isIn c = isIn other

theorem toNat_lt_of_isAlphanum {c : Char} (alphanumeric : c.isAlphanum = true) :
    c.toNat < 128 := by
  unfold Char.isAlphanum Char.isAlpha Char.isUpper Char.isLower Char.isDigit at alphanumeric
  simp only [Bool.or_eq_true, Bool.and_eq_true, decide_eq_true_eq, UInt32.le_iff_toNat_le,
    ge_iff_le] at alphanumeric
  have lastUpper : 'Z'.val.toNat = 90 := rfl
  have lastLower : 'z'.val.toNat = 122 := rfl
  have lastDigit : '9'.val.toNat = 57 := rfl
  have number : c.toNat = c.val.toNat := rfl
  omega

theorem utf8Size_of_lt {c : Char} (ascii : c.toNat < 128) : c.utf8Size = 1 := by
  rw [Char.utf8Size_eq_one_iff, UInt32.le_iff_toNat_le]
  exact Nat.le_of_lt_succ ascii

theorem utf8EncodeChar_of_lt {c : Char} (ascii : c.toNat < 128) :
    String.utf8EncodeChar c = [UInt8.ofNat c.toNat] := by
  unfold String.utf8EncodeChar
  exact if_pos (Nat.le_of_lt_succ ascii)

theorem le_toNat_of_mem_utf8EncodeChar {c : Char} (foreign : 128 ≤ c.toNat) {byte : UInt8}
    (member : byte ∈ String.utf8EncodeChar c) : 128 ≤ byte.toNat := by
  have notSingle : ¬ c.val.toNat ≤ 127 := Nat.not_le.2 foreign
  unfold String.utf8EncodeChar at member
  dsimp only at member
  rw [if_neg notSingle] at member
  split at member
  · simp only [List.mem_cons, List.not_mem_nil, or_false] at member
    rcases member with rfl | rfl <;> rw [UInt8.toNat_ofNat'] <;> omega
  · split at member
    · simp only [List.mem_cons, List.not_mem_nil, or_false] at member
      rcases member with rfl | rfl | rfl <;> rw [UInt8.toNat_ofNat'] <;> omega
    · simp only [List.mem_cons, List.not_mem_nil, or_false] at member
      rcases member with rfl | rfl | rfl | rfl <;> rw [UInt8.toNat_ofNat'] <;> omega

/-- Each byte of a character is in the class of bytes when the character is in the
class. -/
theorem ofByte_of_mem_utf8EncodeChar {isIn : Char → Bool} (ascii : IsAsciiClass isIn) {c : Char}
    {byte : UInt8} (member : byte ∈ String.utf8EncodeChar c) : ofByte isIn byte = isIn c := by
  have small : byte.toNat < 256 := byte.toNat_lt
  have number : (Char.ofNat byte.toNat).toNat = byte.toNat := by
    have valid : byte.toNat.isValidChar := Or.inl (by omega)
    unfold Char.ofNat
    rw [dif_pos valid]
    exact UInt32.toNat_ofNatLT
  by_cases foreign : 128 ≤ c.toNat
  · have high := le_toNat_of_mem_utf8EncodeChar foreign member
    apply ascii
    · rw [number]
      exact high
    · exact foreign
  · rw [utf8EncodeChar_of_lt (Nat.not_le.1 foreign), List.mem_singleton] at member
    have itself : byte.toNat = c.toNat := by
      rw [member, UInt8.toNat_ofNat']
      omega
    unfold ofByte
    rw [itself, Char.ofNat_toNat]

/-- Reading bytes of such a class reads whole characters. -/
theorem takeWhile_bytes {isIn : Char → Bool} (ascii : IsAsciiClass isIn) (text : List Char) :
    (bytes text).takeWhile (ofByte isIn) = bytes (text.takeWhile isIn) := by
  induction text with
  | nil => rfl
  | cons c rest inductionHypothesis =>
      have divided : bytes (c :: rest) = String.utf8EncodeChar c ++ bytes rest := List.flatMap_cons
      have same := fun byte => @ofByte_of_mem_utf8EncodeChar isIn ascii c byte
      rw [divided]
      cases inClass : isIn c with
      | true =>
          have whole : ∀ byte ∈ String.utf8EncodeChar c, ofByte isIn byte = true := by
            intro byte member
            rw [same byte member, inClass]
          rw [List.takeWhile_append_of_pos whole, inductionHypothesis,
            List.takeWhile_cons_of_pos inClass]
          exact List.flatMap_cons.symm
      | false =>
          obtain ⟨first, others, written⟩ :=
            List.exists_cons_of_ne_nil (@String.utf8EncodeChar_ne_nil c)
          have out : ofByte isIn first ≠ true := by
            rw [same first (written ▸ List.mem_cons_self), inClass]
            exact Bool.false_ne_true
          rw [written, List.cons_append, List.takeWhile_cons_of_neg out,
            List.takeWhile_cons_of_neg (by rw [inClass]; exact Bool.false_ne_true)]
          rfl

/-- What is read byte by byte, wherever reading starts, is a slice of the source. -/
theorem isSlice_takeWhile {source : String} {isIn : Char → Bool} (ascii : IsAsciiClass isIn)
    {left : List Char} (within : left <:+ source.toList) :
    IsSlice source (String.ofList (left.takeWhile isIn)) (offsetOf source left)
      (offsetOf source left + ((bytes left).takeWhile (ofByte isIn)).length) := by
  have divided := @List.takeWhile_append_dropWhile Char isIn left
  rw [takeWhile_bytes ascii, length_bytes]
  rw [← divided] at within
  have slice := isSlice_offsetOf within
  rw [← offsetOf_add within, divided] at slice
  exact slice

end VirtualBlocks.Text
