/-!
# One byte per character

The wire form of texts: each character takes one byte, its code. A character past U+00FF has no
such byte and is written as a question mark.
-/

namespace Bytewalk.Text.Latin

/-- The byte of a character; a question mark stands for a character past U+00FF. -/
def byteOf (c : Char) : UInt8 :=
  if c.toNat < 256 then c.toNat.toUInt8 else '?'.toNat.toUInt8

/-- The character of a byte. -/
def charOf (b : UInt8) : Char :=
  Char.ofNat b.toNat

/-- The bytes of a text. -/
def encode (text : String) : List UInt8 :=
  text.toList.map byteOf

/-- The text of some bytes. -/
def decode (bytes : List UInt8) : String :=
  String.ofList (bytes.map charOf)

/-- The character of a byte has the byte as its code. -/
theorem toNat_charOf (b : UInt8) : (charOf b).toNat = b.toNat := by
  have h : b.toNat < 256 := b.toNat_lt
  have hv : b.toNat.isValidChar := Or.inl (by omega)
  rw [charOf, Char.ofNat, dif_pos hv]
  rfl

/-- A byte is the byte of its character. -/
@[simp]
theorem byteOf_charOf (b : UInt8) : byteOf (charOf b) = b := by
  have h : b.toNat < 256 := b.toNat_lt
  simp [byteOf, toNat_charOf, h]

/-- A text takes one byte per character. -/
@[simp]
theorem length_encode (text : String) : (encode text).length = text.toList.length := by
  simp [encode]

/-- Bytes that are read as a text and written again are the same bytes. -/
@[simp]
theorem encode_decode (bytes : List UInt8) : encode (decode bytes) = bytes := by
  simp [encode, decode, Function.comp_def]

end Bytewalk.Text.Latin
