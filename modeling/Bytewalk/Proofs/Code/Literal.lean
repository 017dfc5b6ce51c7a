import Bytewalk.Proofs.Code.Contents

/-!
# Literals

What becomes of a value that is written as a literal and read again, and how passing over a literal
relates to reading it. A literal keeps every value but long texts and texts with characters past
U+00FF; `Value.normalize` says what it makes of those.
-/

namespace Bytewalk

/-- The value that a literal gives back. A text keeps its first 255 characters, and a question mark
stands for every one of them past U+00FF. -/
def Value.normalize : Value → Value
  | .text s =>
    .text (String.ofList ((s.toList.take 255).map fun c => if c.toNat < 256 then c else '?'))
  | v => v

namespace Text.Latin

/-- A character is found again by its byte, up to those that have none. -/
theorem charOf_byteOf (c : Char) : charOf (byteOf c) = if c.toNat < 256 then c else '?' := by
  by_cases h : c.toNat < 256
  · have hbyte : (byteOf c).toNat = c.toNat := by
      simp only [byteOf, h, ↓reduceIte]
      exact Nat.mod_eq_of_lt h
    rw [if_pos h]
    apply Char.ext
    apply UInt32.toNat_inj.1
    exact (toNat_charOf _).trans hbyte
  · rw [if_neg h, byteOf, if_neg h]
    decide

/-- A text is read back character by character. -/
theorem decode_encode (s : String) :
    decode (encode s) = String.ofList (s.toList.map fun c => if c.toNat < 256 then c else '?') := by
  simp only [decode, encode, List.map_map, Function.comp_def, charOf_byteOf]

end Text.Latin

/-- The text of a literal is the beginning of the text, character by character. -/
theorem decode_take_encode (s : String) :
    Text.Latin.decode ((Text.Latin.encode s).take maxTextLiteral) =
      String.ofList ((s.toList.take 255).map fun c => if c.toNat < 256 then c else '?') := by
  simp [Text.Latin.decode, Text.Latin.encode, maxTextLiteral, List.map_take,
    Function.comp_def, Text.Latin.charOf_byteOf]

/-- Normalizing a value does not change its literal. -/
@[simp]
theorem Value.encode_normalize (v : Value) : v.normalize.encode = v.encode := by
  cases v with
  | text s =>
    -- The normalized text is what decoding gives back, and decoding loses nothing.
    have htext : Text.Latin.encode (String.ofList ((s.toList.take 255).map
        fun c => if c.toNat < 256 then c else '?')) =
          (Text.Latin.encode s).take maxTextLiteral := by
      rw [← decode_take_encode, Text.Latin.encode_decode]
    simp only [normalize, encode, htext, List.take_take, Nat.min_self]
  | _ => rfl

/-- A literal is normalized once and for all. -/
@[simp]
theorem Value.normalize_normalize (v : Value) : v.normalize.normalize = v.normalize := by
  cases v with
  | text s =>
    simp only [normalize, String.toList_ofList, List.map_take, List.take_take, Nat.min_self,
      List.map_map]
    congr 3
    apply List.map_congr_left
    intro c _
    by_cases h : c.toNat < 256 <;> simp [h]
  | _ => rfl

namespace Decoder

variable {image : Image} {p : Nat}

/-- Passing over a text is reading it and forgetting it. -/
theorem passShortText_eq (image : Image) :
    passShortText image = (do let _ ← shortText image; pure ()) := by
  funext p
  -- Both read the length first; only what becomes of the bytes differs.
  change (textBody image p (image.byteAt p).toNat >>= fun _ => pure ()) (p + 1) =
    ((textBody image p (image.byteAt p).toNat >>= fun bytes => pure (Text.Latin.decode bytes)) >>=
      fun _ => pure ()) (p + 1)
  rw [bind_assoc]
  rfl

/-- Passing over a literal is reading it and forgetting the value. -/
theorem passLiteral_eq (image : Image) :
    passLiteral image = (do let _ ← literal image; pure ()) := by
  funext p
  -- Both begin with the tag, and only texts are passed over by a decoder of their own.
  simp only [passLiteral, literal, bind, EStateM.bind]
  cases literalTag image p with
  | error e q => rfl
  | ok tag q =>
    cases tag with
    | string =>
      simp only [passShortText_eq, bind, EStateM.bind]
      cases shortText image q <;> rfl
    | _ => rfl

/-- A literal that is held is read as the normalized value. -/
theorem literal_of_holds {v : Value} (h : image.Holds p v.encode) :
    literal image p = .ok v.normalize (p + v.encode.length) := by
  have htag : ∀ (tag : LiteralTag) rest, v.encode = tag.byte :: rest →
      literalTag image p = .ok tag (p + 1) := by
    intro tag rest hencode
    rw [hencode] at h
    simp [literalTag, byte, bind, EStateM.bind, pure, EStateM.pure, h.byteAt]
  cases v with
  | null =>
    simp only [literal, bind, EStateM.bind, htag .null [] rfl]
    rfl
  | bool b =>
    have hbyte : image.byteAt (p + 1) = if b then 1 else 0 := h.tail.byteAt
    simp only [literal, bind, EStateM.bind, htag .bool _ rfl, byte, hbyte]
    cases b <;> rfl
  | int n =>
    have hint : image.int32At (p + 1) = n := h.tail.int32At
    simp [literal, bind, EStateM.bind, htag .int _ rfl, int32, hint, pure, EStateM.pure,
      Value.normalize, Value.encode, Nat.add_assoc]
  | float x =>
    have hfloat : UInt64.ofNat (image.wordAt (p + 1) 8) = x.bits := h.tail.binary64At
    simp [literal, bind, EStateM.bind, htag .float _ rfl, binary64, hfloat, pure, EStateM.pure,
      Value.normalize, Value.encode, Nat.add_assoc]
  | text s =>
    have hlength : ((Text.Latin.encode s).take maxTextLiteral).length ≤ maxTextLiteral :=
      List.length_take_le _ _
    simp only [literal, bind, EStateM.bind, htag .string _ rfl,
      shortText_of_holds hlength h.tail, decode_take_encode, pure, EStateM.pure, Value.normalize,
      Value.encode, List.length_cons]
    congr 1
    omega

/-- A literal that is held is passed over to its end. -/
theorem passLiteral_of_holds {v : Value} (h : image.Holds p v.encode) :
    passLiteral image p = .ok () (p + v.encode.length) := by
  simp [passLiteral_eq, bind, EStateM.bind, literal_of_holds h, pure, EStateM.pure]

end Decoder

end Bytewalk
