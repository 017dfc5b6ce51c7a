import Bytewalk.Number.Binary64
import Bytewalk.Symbol

/-!
# Images

A program is a sequence of bytes. Reading past its end is no failure: every byte there is zero.
Words are written with their least significant byte first.
-/

namespace Bytewalk

/-- The bytes of a program. -/
abbrev Image := Array UInt8

/-! ## Words -/

namespace Word

/-- The lowest `width` digits of `n` in base 256, the least significant first. -/
def toBytes : (width : Nat) → (n : Nat) → List UInt8
  | 0, _ => []
  | width + 1, n => UInt8.ofNat n :: toBytes width (n / 256)

/-- The number whose digits in base 256 these are, the least significant first. -/
def ofBytes : List UInt8 → Nat
  | [] => 0
  | b :: rest => b.toNat + 256 * ofBytes rest

/-- A word has as many bytes as its width says. -/
@[simp]
theorem length_toBytes (width n : Nat) : (toBytes width n).length = width := by
  induction width generalizing n with
  | zero => rfl
  | succ width ih => simp [toBytes, ih]

/-- Digits are those of the number that they give. -/
theorem toBytes_ofBytes (bytes : List UInt8) : toBytes bytes.length (ofBytes bytes) = bytes := by
  induction bytes with
  | nil => rfl
  | cons b rest ih =>
    have hb : b.toNat < 256 := b.toNat_lt
    have hdiv : (b.toNat + 256 * ofBytes rest) / 256 = ofBytes rest := by omega
    have hlow : UInt8.ofNat (b.toNat + 256 * ofBytes rest) = b := by
      apply UInt8.toNat_inj.mp
      rw [UInt8.toNat_ofNat']
      omega
    simp [ofBytes, toBytes, hdiv, hlow, ih]

/-- The four bytes of an integer of 32 bits. -/
def ofInt32 (n : Int32) : List UInt8 :=
  toBytes 4 n.toUInt32.toNat

/-- The four bytes of a count; counts past 32 bits lose their upper part. -/
def ofCount (n : Nat) : List UInt8 :=
  toBytes 4 n

/-- The eight bytes of a binary64 number. -/
def ofBinary64 (x : Binary64) : List UInt8 :=
  toBytes 8 x.bits.toNat

/-- The four bytes of a symbol. -/
def ofSymbol (s : Symbol) : List UInt8 :=
  ofInt32 s.id

end Word

/-! ## Reading -/

namespace Image

/-- The byte at an offset; zero past the end. -/
def byteAt (image : Image) (offset : Nat) : UInt8 :=
  image.getD offset 0

/-- The bytes from an offset on, with zeros past the end. -/
def bytesAt (image : Image) (offset width : Nat) : List UInt8 :=
  (List.range width).map fun k => image.byteAt (offset + k)

/-- The word of `width` bytes at an offset. -/
def wordAt (image : Image) (offset width : Nat) : Nat :=
  Word.ofBytes (image.bytesAt offset width)

/-- The signed integer of 32 bits at an offset. -/
def int32At (image : Image) (offset : Nat) : Int32 :=
  (UInt32.ofNat (image.wordAt offset 4)).toInt32

/-- How many bytes there are from an offset on. -/
def remaining (image : Image) (offset : Nat) : Nat :=
  image.size - offset

/-- Past the end every byte is zero. -/
theorem byteAt_of_size_le {image : Image} {offset : Nat} (h : image.size ≤ offset) :
    image.byteAt offset = 0 := by
  simp [byteAt, h]

/-- A byte that is not zero lies inside the image. -/
theorem lt_size_of_byteAt_ne_zero {image : Image} {offset : Nat} (h : image.byteAt offset ≠ 0) :
    offset < image.size := by
  rcases Nat.lt_or_ge offset image.size with hlt | hge
  · exact hlt
  · exact absurd (byteAt_of_size_le hge) h

/-- As many bytes are read as were asked for. -/
@[simp]
theorem length_bytesAt (image : Image) (offset width : Nat) :
    (image.bytesAt offset width).length = width := by
  simp [bytesAt]

end Image

end Bytewalk
