/-!
Contract: a text measured and read in other units than characters.

Owns:
- the length of a text in UTF-8 bytes, the unit of every reported offset;
- the UTF-16 code units of a text, the unit of the checksum;
- reading bytes as UTF-8 text.
-/

namespace VirtualBlocks.Text

def bytes (text : List Char) : List UInt8 :=
  text.flatMap String.utf8EncodeChar

def byteLength : List Char → Nat
  | [] => 0
  | c :: rest => c.utf8Size + byteLength rest

/-- The UTF-16 code units of a character: itself below `0x10000`, else a high
and a low surrogate. -/
def charUnits (c : Char) : List Nat :=
  let code := c.toNat
  if code < 0x10000 then [code]
  else [0xD800 + (code - 0x10000) / 0x400, 0xDC00 + (code - 0x10000) % 0x400]

def units (text : List Char) : List Nat :=
  text.flatMap charUnits

/-- The text whose UTF-8 bytes these are, if they are UTF-8. -/
def ofBytes? (content : List UInt8) : Option String :=
  String.fromUTF8? content.toByteArray

theorem ofBytes?_bytes (text : List Char) : ofBytes? (bytes text) = some (String.ofList text) := by
  have valid : (bytes text).toByteArray.IsValidUTF8 := ⟨text, rfl⟩
  unfold ofBytes? String.fromUTF8?
  rw [dif_pos valid]
  rfl

/-- Bytes are a text exactly when they are its own. -/
theorem ofBytes?_eq_some_iff {content : List UInt8} {text : String} :
    ofBytes? content = some text ↔ content = bytes text.toList := by
  constructor
  · intro read
    have valid : content.toByteArray.IsValidUTF8 := by
      unfold ofBytes? String.fromUTF8? at read
      split at read
      · assumption
      · contradiction
    obtain ⟨characters, same⟩ := valid
    have isBytes : content = bytes characters := List.toByteArray_inj.1 same
    rw [isBytes, ofBytes?_bytes] at read
    rw [isBytes, ← Option.some.inj read, String.toList_ofList]
  · rintro rfl
    rw [ofBytes?_bytes, String.ofList_toList]

end VirtualBlocks.Text
