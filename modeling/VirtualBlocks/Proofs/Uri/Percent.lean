import VirtualBlocks.Proofs.Text.Occurrence
import VirtualBlocks.Uri.Percent

/-!
Contract: percent coding loses nothing and writes a fixed alphabet.

Owns:
- reading a coded text back gives the text, whatever follows it;
- the alphabet of coded text, which no separator of an id belongs to;
- a marker of characters that no escape is made of occurs in a coded text exactly
  where it occurs in the text itself.

Does not own: the separators of a query (`Proofs.Uri.Query`).
-/

namespace VirtualBlocks.Uri

open VirtualBlocks.Text

/-! ## Reading escapes back -/

theorem hexValue?_hexDigit {value : Nat} (small : value < 16) :
    hexValue? (hexDigit value) = some value := by
  have all : ∀ digit ∈ List.range 16, hexValue? (hexDigit digit) = some digit := by decide
  exact all value (List.mem_range.2 small)

theorem decodedBytes_cons {c : Char} (notEscape : c ≠ '%') (rest : List Char) :
    decodedBytes (c :: rest) = String.utf8EncodeChar c ++ decodedBytes rest := by
  rw [decodedBytes]
  intro high low further isEscape
  exact absurd isEscape notEscape

theorem decodedBytes_escapeByte (byte : UInt8) (rest : List Char) :
    decodedBytes (escapeByte byte ++ rest) = byte :: decodedBytes rest := by
  have bound : byte.toNat < 256 := byte.toNat_lt
  have upper : hexValue? (hexDigit (byte.toNat / 16)) = some (byte.toNat / 16) :=
    hexValue?_hexDigit (by omega)
  have lower : hexValue? (hexDigit (byte.toNat % 16)) = some (byte.toNat % 16) :=
    hexValue?_hexDigit (by omega)
  have value : 16 * (byte.toNat / 16) + byte.toNat % 16 = byte.toNat := by omega
  show decodedBytes ('%' :: hexDigit (byte.toNat / 16) :: hexDigit (byte.toNat % 16) :: rest) = _
  simp only [decodedBytes, upper, lower, value, UInt8.ofNat_toNat]

theorem decodedBytes_escapes (content : List UInt8) (rest : List Char) :
    decodedBytes (content.flatMap escapeByte ++ rest) = content ++ decodedBytes rest := by
  induction content with
  | nil => rfl
  | cons byte further inductionHypothesis =>
      rw [List.flatMap_cons, List.append_assoc, decodedBytes_escapeByte, inductionHypothesis]
      rfl

theorem ne_percent_of_isUnreserved {c : Char} (unreserved : isUnreserved c = true) :
    c ≠ '%' := by
  rintro rfl
  exact absurd unreserved (by decide)

theorem decodedBytes_escapeChar (c : Char) (rest : List Char) :
    decodedBytes (escapeChar c ++ rest) = String.utf8EncodeChar c ++ decodedBytes rest := by
  unfold escapeChar
  split
  · rename_i unreserved
    exact decodedBytes_cons (ne_percent_of_isUnreserved unreserved) rest
  · exact decodedBytes_escapes (String.utf8EncodeChar c) rest

theorem decodedBytes_encode (text : List Char) : decodedBytes (encode text) = bytes text := by
  induction text with
  | nil => simp [encode, decodedBytes, bytes]
  | cons c rest inductionHypothesis =>
      unfold encode bytes at *
      rw [List.flatMap_cons, decodedBytes_escapeChar, inductionHypothesis, List.flatMap_cons]

/-- A coded text is read back as the text. -/
theorem decode?_encode (text : List Char) : decode? (encode text) = some text := by
  unfold decode?
  rw [decodedBytes_encode, ofBytes?_bytes, Option.map_some, String.toList_ofList]

/-! ## The alphabet -/

/-- The characters that coded text is made of. -/
def isCoded (c : Char) : Bool :=
  isUnreserved c || c == '%'

theorem isCoded_hexDigit {value : Nat} (small : value < 16) : isCoded (hexDigit value) = true := by
  have all : ∀ digit ∈ List.range 16, isCoded (hexDigit digit) = true := by decide
  exact all value (List.mem_range.2 small)

theorem isCoded_of_mem_escapeByte {byte : UInt8} {c : Char} (member : c ∈ escapeByte byte) :
    isCoded c = true := by
  have bound : byte.toNat < 256 := byte.toNat_lt
  simp only [escapeByte, List.mem_cons, List.not_mem_nil, or_false] at member
  rcases member with rfl | rfl | rfl
  · rfl
  · exact isCoded_hexDigit (by omega)
  · exact isCoded_hexDigit (by omega)

theorem isCoded_of_mem_escapeChar {source c : Char} (member : c ∈ escapeChar source) :
    isCoded c = true := by
  unfold escapeChar at member
  split at member
  · rename_i unreserved
    rw [List.mem_singleton.1 member, isCoded, unreserved, Bool.true_or]
  · obtain ⟨byte, _, inEscape⟩ := List.mem_flatMap.1 member
    exact isCoded_of_mem_escapeByte inEscape

theorem isCoded_of_mem_encode {text : List Char} {c : Char} (member : c ∈ encode text) :
    isCoded c = true := by
  obtain ⟨source, _, inEscape⟩ := List.mem_flatMap.1 member
  exact isCoded_of_mem_escapeChar inEscape

/-- What is not of the alphabet does not occur in coded text. -/
theorem notMem_encode {c : Char} (foreign : isCoded c = false) (text : List Char) :
    c ∉ encode text := by
  intro member
  have coded := isCoded_of_mem_encode member
  rw [foreign] at coded
  contradiction

/-! ## Markers -/

/-- Whether a character stands for itself in coded text and in no escape. -/
def standsAlone (c : Char) : Bool :=
  isUnreserved c && !c.isDigit && !c.isUpper

theorem not_standsAlone_of_mem_escapeByte {byte : UInt8} {c : Char}
    (member : c ∈ escapeByte byte) : standsAlone c = false := by
  have digits : ∀ digit ∈ List.range 16, standsAlone (hexDigit digit) = false := by decide
  have bound : byte.toNat < 256 := byte.toNat_lt
  simp only [escapeByte, List.mem_cons, List.not_mem_nil, or_false] at member
  rcases member with rfl | rfl | rfl
  · rfl
  · exact digits _ (List.mem_range.2 (by omega))
  · exact digits _ (List.mem_range.2 (by omega))

theorem isUnreserved_of_standsAlone {c : Char} (alone : standsAlone c = true) :
    isUnreserved c = true := by
  unfold standsAlone at alone
  simp only [Bool.and_eq_true] at alone
  exact alone.1.1

theorem not_standsAlone_of_mem_escapes {source c : Char} (reserved : isUnreserved source = false)
    (member : c ∈ escapeChar source) : standsAlone c = false := by
  unfold escapeChar at member
  rw [reserved] at member
  obtain ⟨byte, _, inEscape⟩ := List.mem_flatMap.1 member
  exact not_standsAlone_of_mem_escapeByte inEscape

theorem escapeChar_ne_nil (source : Char) : escapeChar source ≠ [] := by
  unfold escapeChar
  split
  · exact List.cons_ne_nil _ _
  · intro empty
    cases written : String.utf8EncodeChar source with
    | nil => exact String.utf8EncodeChar_ne_nil written
    | cons byte further =>
        rw [written, List.flatMap_cons] at empty
        exact List.cons_ne_nil _ _ (List.append_eq_nil_iff.1 empty).1

/-- A marker starts a coded text exactly when it starts the text. -/
theorem prefix_encode_iff {marker : List Char} (alone : ∀ c ∈ marker, standsAlone c = true)
    (text : List Char) : marker <+: encode text ↔ marker <+: text := by
  induction marker generalizing text with
  | nil => exact ⟨fun _ => List.nil_prefix, fun _ => List.nil_prefix⟩
  | cons first others inductionHypothesis =>
      have firstAlone := alone first List.mem_cons_self
      have othersAlone := fun c member => alone c (List.mem_cons_of_mem first member)
      cases text with
      | nil => exact Iff.rfl
      | cons c rest =>
          have coded : encode (c :: rest) = escapeChar c ++ encode rest := List.flatMap_cons
          rw [coded]
          cases unreserved : isUnreserved c with
          | true =>
              have itself : escapeChar c = [c] := by
                unfold escapeChar
                rw [if_pos unreserved]
              rw [itself, List.singleton_append, List.cons_prefix_cons, List.cons_prefix_cons,
                inductionHypothesis othersAlone]
          | false =>
              constructor
              · intro starts
                obtain ⟨head, tail, written⟩ :=
                  List.exists_cons_of_ne_nil (escapeChar_ne_nil c)
                rw [written, List.cons_append, List.cons_prefix_cons] at starts
                have inEscape : head ∈ escapeChar c := written ▸ List.mem_cons_self
                have notAlone := not_standsAlone_of_mem_escapes unreserved inEscape
                rw [← starts.1, firstAlone] at notAlone
                contradiction
              · intro starts
                rw [List.cons_prefix_cons] at starts
                have isUnreservedFirst := isUnreserved_of_standsAlone firstAlone
                rw [starts.1, unreserved] at isUnreservedFirst
                contradiction

/-- A marker occurs in a coded text exactly when it occurs in the text. -/
theorem infix_encode_iff {marker : List Char} (markerNonempty : marker ≠ [])
    (alone : ∀ c ∈ marker, standsAlone c = true) (text : List Char) :
    marker <:+: encode text ↔ marker <:+: text := by
  induction text with
  | nil => exact Iff.rfl
  | cons c rest inductionHypothesis =>
      have coded : encode (c :: rest) = escapeChar c ++ encode rest := List.flatMap_cons
      have startsSame := prefix_encode_iff alone (c :: rest)
      rw [coded] at startsSame ⊢
      cases unreserved : isUnreserved c with
      | true =>
          have itself : escapeChar c = [c] := by
            unfold escapeChar
            rw [if_pos unreserved]
          rw [itself, List.singleton_append] at startsSame ⊢
          rw [List.infix_cons_iff, List.infix_cons_iff, startsSame, inductionHypothesis]
      | false =>
          obtain ⟨first, others, rfl⟩ := List.exists_cons_of_ne_nil markerNonempty
          have firstAlone := alone first List.mem_cons_self
          have notInEscape : first ∉ escapeChar c := by
            intro inEscape
            have notAlone := not_standsAlone_of_mem_escapes unreserved inEscape
            rw [firstAlone] at notAlone
            contradiction
          rw [infix_append_iff notInEscape, inductionHypothesis, List.infix_cons_iff]
          constructor
          · exact Or.inr
          · rintro (starts | inside)
            · have firstUnreserved := isUnreserved_of_standsAlone firstAlone
              rw [(List.cons_prefix_cons.1 starts).1, unreserved] at firstUnreserved
              contradiction
            · exact inside

end VirtualBlocks.Uri
