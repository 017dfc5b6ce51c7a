import Mathlib.Algebra.Group.Nat.Defs
import Bytewalk.Code.Decoder
import Bytewalk.Code.Encoding
import Bytewalk.Proofs.Computation

/-!
# Contents of an image

What it means that an image holds some bytes at an offset, and what the readers find there: words
are read back as they were written, and counts also when the bytes behind them suffice.
-/

namespace Bytewalk

/-- The image holds the bytes from the offset on, one behind the other. -/
def Image.Holds (image : Image) (p : Nat) (bytes : List UInt8) : Prop :=
  bytes <+: image.toList.drop p

namespace Image.Holds

variable {image : Image} {p : Nat} {b : UInt8} {first second bytes : List UInt8}

/-- An image holds a piece of itself where the piece begins. -/
theorem of_append (before bytes after : List UInt8) :
    Holds (before ++ bytes ++ after).toArray before.length bytes := by
  refine ⟨after, ?_⟩
  simp

/-- Where two groups of bytes are held, the first one is. -/
theorem left (h : image.Holds p (first ++ second)) : image.Holds p first :=
  (List.prefix_append first second).trans h

/-- Where two groups of bytes are held, the second one is behind the first. -/
theorem right (h : image.Holds p (first ++ second)) :
    image.Holds (p + first.length) second := by
  obtain ⟨after, hafter⟩ := h
  refine ⟨after, ?_⟩
  rw [← List.drop_drop, ← hafter, List.append_assoc, List.drop_left]

/-- Behind the first byte the others are held. -/
theorem tail (h : image.Holds p (b :: bytes)) : image.Holds (p + 1) bytes :=
  @right image p [b] bytes h

/-- Every byte is found at its place. -/
theorem byteAt_add (h : image.Holds p bytes) {k : Nat} (hk : k < bytes.length) :
    image.byteAt (p + k) = bytes[k] := by
  have hget : image.toList[p + k]? = some bytes[k] := by
    rw [← List.getElem?_drop]
    exact List.prefix_iff_getElem?.1 h k hk
  -- Inside the image no byte is made up.
  rw [Image.byteAt, Array.getD_eq_getD_getElem?, ← Array.getElem?_toList, hget]
  rfl

/-- The first byte is found at the offset. -/
theorem byteAt (h : image.Holds p (b :: bytes)) : image.byteAt p = b :=
  h.byteAt_add (k := 0) (by simp)

/-- Bytes that are held lie inside the image. -/
theorem length_le_remaining (h : image.Holds p bytes) : bytes.length ≤ image.remaining p := by
  have := h.length_le
  simpa [Image.remaining] using this

/-- Bytes that are held are read back. -/
theorem bytesAt (h : image.Holds p bytes) : image.bytesAt p bytes.length = bytes := by
  refine List.ext_getElem (by simp) fun k _ hk => ?_
  simp [Image.bytesAt, h.byteAt_add hk]

/-- Bytes that are held are cut out again. -/
theorem take_drop (h : image.Holds p bytes) :
    (image.toList.drop p).take bytes.length = bytes :=
  (List.prefix_iff_eq_take.1 h).symm

end Image.Holds

/-! ## Words -/

namespace Word

/-- The digits of a number give it back up to what its width drops. -/
theorem ofBytes_toBytes (width n : Nat) : ofBytes (toBytes width n) = n % 256 ^ width := by
  induction width generalizing n with
  | zero => simp [toBytes, ofBytes, Nat.mod_one]
  | succ width ih =>
    have hlow : (UInt8.ofNat n).toNat = n % 256 := UInt8.toNat_ofNat'
    rw [toBytes, ofBytes, ih, hlow, Nat.pow_succ', @Nat.mod_mul 256]

/-- An integer takes four bytes. -/
@[simp]
theorem length_ofInt32 (n : Int32) : (ofInt32 n).length = 4 :=
  length_toBytes 4 _

/-- A count takes four bytes. -/
@[simp]
theorem length_ofCount (n : Nat) : (ofCount n).length = 4 :=
  length_toBytes 4 _

/-- A binary64 number takes eight bytes. -/
@[simp]
theorem length_ofBinary64 (x : Binary64) : (ofBinary64 x).length = 8 :=
  length_toBytes 8 _

/-- A symbol takes four bytes. -/
@[simp]
theorem length_ofSymbol (s : Symbol) : (ofSymbol s).length = 4 :=
  length_toBytes 4 _

/-- Symbols one behind the other take four bytes each. -/
@[simp]
theorem length_flatMap_ofSymbol (symbols : List Symbol) :
    (symbols.flatMap ofSymbol).length = symbols.length * 4 := by
  induction symbols with
  | nil => rfl
  | cons s rest ih =>
    rw [List.flatMap_cons, List.length_append, ih, length_ofSymbol, List.length_cons]
    omega

end Word

namespace Image

variable {image : Image} {p : Nat}

/-- Bytes that are the digits of a number are read as it, up to what their width drops. -/
theorem wordAt_of_bytesAt {width n : Nat} (h : image.bytesAt p width = Word.toBytes width n) :
    image.wordAt p width = n % 256 ^ width := by
  rw [wordAt, h, Word.ofBytes_toBytes]

/-- The bytes of an integer are read as it. -/
theorem int32At_of_bytesAt {n : Int32} (h : image.bytesAt p 4 = Word.ofInt32 n) :
    image.int32At p = n := by
  have hlt : n.toUInt32.toNat < 256 ^ 4 := n.toUInt32.toNat_lt
  have hword : image.wordAt p 4 = n.toUInt32.toNat := by
    rw [wordAt_of_bytesAt h, Nat.mod_eq_of_lt hlt]
  rw [int32At, hword, UInt32.ofNat_toNat, Int32.toInt32_toUInt32]

end Image

namespace Image.Holds

variable {image : Image} {p : Nat}

/-- The digits of a number are read back up to what their width drops. -/
theorem wordAt {width n : Nat} (h : image.Holds p (Word.toBytes width n)) :
    image.wordAt p width = n % 256 ^ width := by
  have hbytes := h.bytesAt
  rw [Word.length_toBytes] at hbytes
  exact wordAt_of_bytesAt hbytes

/-- An integer is read back. -/
theorem int32At {n : Int32} (h : image.Holds p (Word.ofInt32 n)) : image.int32At p = n := by
  have hbytes := h.bytesAt
  rw [Word.length_ofInt32] at hbytes
  exact int32At_of_bytesAt hbytes

/-- A binary64 number is read back bit by bit. -/
theorem binary64At {x : Binary64} (h : image.Holds p (Word.ofBinary64 x)) :
    UInt64.ofNat (image.wordAt p 8) = x.bits := by
  have hlt : x.bits.toNat < 256 ^ 8 := x.bits.toNat_lt
  rw [h.wordAt, Nat.mod_eq_of_lt hlt, UInt64.ofNat_toNat]

/-- A count that fits into a signed word is read back. -/
theorem toInt_int32At {n : Nat} (hn : n < 2 ^ 31) (h : image.Holds p (Word.ofCount n)) :
    (image.int32At p).toInt = n := by
  have hword : image.wordAt p 4 = n := by
    rw [h.wordAt, Nat.mod_eq_of_lt (by omega)]
  rw [Image.int32At, hword]
  exact Int32.toInt_ofNat_of_lt hn

/-- A count that does not fit into a signed word is read as a negative number. -/
theorem toInt_int32At_neg {n : Nat} (hlow : 2 ^ 31 ≤ n) (hn : n < 2 ^ 32)
    (h : image.Holds p (Word.ofCount n)) : (image.int32At p).toInt < 0 := by
  have hword : image.wordAt p 4 = n := by
    rw [h.wordAt, Nat.mod_eq_of_lt (by omega)]
  have hbmod : (image.int32At p).toInt = (n : Int).bmod (2 ^ 32) := by
    simp [Image.int32At, hword]
  rw [hbmod, Int.bmod_def]
  omega

end Image.Holds

/-! ## Decoders -/

namespace Decoder

variable {image : Image} {p : Nat}

/-- A byte that is held is read. -/
theorem byte_of_holds {b : UInt8} {rest : List UInt8} (h : image.Holds p (b :: rest)) :
    byte image p = .ok b (p + 1) := by
  rw [byte, h.byteAt]

/-- A symbol that is held is read. -/
theorem symbol_of_holds {s : Symbol} (h : image.Holds p (Word.ofSymbol s)) :
    symbol image p = .ok s (p + 4) := by
  rw [symbol, show image.int32At p = s.id from h.int32At]

/-- A zero byte is consumed and says that nothing is there. -/
theorem present_of_zero (h : image.byteAt p = 0) : present image p = .ok false (p + 1) :=
  if_pos h

/-- Any other byte is left and says that something is there. -/
theorem present_of_ne_zero (h : image.byteAt p ≠ 0) : present image p = .ok true p :=
  if_neg h

/-- A count is read where it is not negative and enough bytes follow for its elements. -/
theorem count_eq_ok {least n q : Nat} :
    count image least p = .ok n q ↔
      (image.int32At p).toInt = n ∧ n * least ≤ image.remaining (p + 4) ∧ q = p + 4 := by
  simp only [count, fail_eq]
  by_cases hneg : (image.int32At p).toInt < 0
  -- A negative count is refused, and no natural number is negative.
  · simp only [hneg, ↓reduceIte, reduceCtorEq, false_iff, not_and]
    intro h
    omega
  · obtain ⟨k, hk⟩ := Int.eq_ofNat_of_zero_le (Int.not_lt.1 hneg)
    simp only [hk, Int.toNat_natCast, Int.natCast_inj]
    by_cases hfits : image.remaining (p + 4) < k * least
    · simp only [hfits, ↓reduceIte]
      rw [if_neg (by omega)]
      simp only [reduceCtorEq, false_iff, not_and]
      rintro rfl
      omega
    · simp only [hfits, ↓reduceIte]
      rw [if_neg (by omega)]
      simp only [EStateM.Result.ok.injEq]
      constructor
      · rintro ⟨rfl, rfl⟩
        exact ⟨rfl, Nat.not_lt.1 hfits, rfl⟩
      · rintro ⟨rfl, -, rfl⟩
        exact ⟨rfl, rfl⟩

/-- A count that is held before bytes that suffice for its elements is read. -/
theorem count_of_holds {least n : Nat} {rest : List UInt8} (hn : n < 2 ^ 31)
    (h : image.Holds p (Word.ofCount n ++ rest)) (hrest : n * least ≤ rest.length) :
    count image least p = .ok n (p + 4) := by
  have hbehind := h.right.length_le_remaining
  rw [Word.length_ofCount] at hbehind
  exact count_eq_ok.2 ⟨h.left.toInt_int32At hn, Nat.le_trans hrest hbehind, rfl⟩

/-- The bytes of a text that are held are read. -/
theorem textBody_of_holds {bytes : List UInt8} (start : Nat) (h : image.Holds p bytes) :
    textBody image start bytes.length p = .ok bytes (p + bytes.length) := by
  rw [textBody, if_neg (Nat.not_lt.2 h.length_le_remaining)]
  simp [h.take_drop]

/-- A text of at most 255 bytes that is held behind its length is read. -/
theorem shortText_of_holds {bytes : List UInt8} (hlength : bytes.length ≤ maxTextLiteral)
    (h : image.Holds p (UInt8.ofNat bytes.length :: bytes)) :
    shortText image p = .ok (Text.Latin.decode bytes) (p + 1 + bytes.length) := by
  have hbyte : (UInt8.ofNat bytes.length).toNat = bytes.length := by
    rw [UInt8.toNat_ofNat', Nat.mod_eq_of_lt]
    exact Nat.lt_succ_of_le hlength
  have hbody : textBody image p (image.byteAt p).toNat (p + 1) =
      .ok bytes (p + 1 + bytes.length) := by
    rw [h.byteAt, hbyte]
    exact textBody_of_holds p h.tail
  change (do
    let bytes ← textBody image p (image.byteAt p).toNat
    return Text.Latin.decode bytes) (p + 1) = _
  exact bind_of_ok hbody

end Decoder

end Bytewalk
