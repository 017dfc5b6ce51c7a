import Bytewalk.Code.Image
import Bytewalk.Code.Opcode
import Bytewalk.Error
import Bytewalk.Text.Latin

/-!
# Decoders

A decoder reads an image from an offset on and leaves an offset behind, also when it fails. Fixed
forms never fail, since every byte past the end is zero; a count or a length that promises more
than the rest of the image can hold does.
-/

namespace Bytewalk

/-- Reads something from an offset on, and leaves an offset behind. -/
abbrev Decoder (α : Type) := EStateM Error Nat α

namespace Decoder

variable (image : Image)

/-- Fails with a cause. -/
def fail {α : Type} (cause : Cause) : Decoder α :=
  throw (.of cause)

/-- A failure stays where it is. -/
theorem fail_eq {α : Type} (cause : Cause) (p : Nat) :
    (fail cause : Decoder α) p = .error (.of cause) p := rfl

/-- Passes over bytes unread. -/
def advance (width : Nat) : Decoder Unit :=
  fun p => .ok () (p + width)

/-- Goes to an offset. -/
def seek (offset : Nat) : Decoder Unit :=
  fun _ => .ok () offset

/-- The greatest offset that a jump reaches. -/
def maxOffset : Nat := 18446744073709551615

/-- Jumps over bytes, at most to the greatest offset. -/
def skip (width : Nat) : Decoder Unit :=
  fun p => .ok () (min (p + width) maxOffset)

/-- The next byte, which is left. -/
def peek : Decoder UInt8 :=
  fun p => .ok (image.byteAt p) p

/-- The next byte. -/
def byte : Decoder UInt8 :=
  fun p => .ok (image.byteAt p) (p + 1)

/-- Whether something optional is there. A zero byte says that it is not and is consumed; any other
byte begins it and is left. -/
def present : Decoder Bool :=
  fun p => if image.byteAt p = 0 then .ok false (p + 1) else .ok true p

/-- An integer of 32 bits. -/
def int32 : Decoder Int32 :=
  fun p => .ok (image.int32At p) (p + 4)

/-- A natural number of 32 bits. -/
def word32 : Decoder Nat :=
  fun p => .ok (image.wordAt p 4) (p + 4)

/-- A binary64 number. -/
def binary64 : Decoder Binary64 :=
  fun p => .ok ⟨UInt64.ofNat (image.wordAt p 8)⟩ (p + 8)

/-- A symbol. -/
def symbol : Decoder Symbol :=
  fun p => .ok ⟨image.int32At p⟩ (p + 4)

/-- A count of elements that take at least `least` bytes each. -/
def count (least : Nat) : Decoder Nat := fun p =>
  let raw := (image.int32At p).toInt
  if raw < 0 then
    fail (.malformed s!"negative count {raw} at offset {p}") (p + 4)
  else if image.remaining (p + 4) < raw.toNat * least then
    fail (.malformed s!"count {raw} at offset {p} overruns the program") (p + 4)
  else
    .ok raw.toNat (p + 4)

/-- The bytes of a text whose length has been read at offset `start`. -/
def textBody (start length : Nat) : Decoder (List UInt8) := fun p =>
  if image.remaining p < length then
    fail (.malformed s!"string of {length} bytes at offset {start} overruns the program") p
  else
    .ok (image.extract p (p + length)).toList (p + length)

/-- The bytes of a text are read up to their end. -/
theorem eq_add_of_textBody {image : Image} {start length p q : Nat} {bytes : List UInt8}
    (h : textBody image start length p = .ok bytes q) : q = p + length := by
  rw [textBody] at h
  split at h
  · cases h
  · cases h
    rfl

/-- A text behind its length in four bytes. -/
def longText : Decoder String := do
  let start ← get
  let length ← word32 image
  return Text.Latin.decode (← textBody image start length)

/-- What reads a length in four bytes goes on with it behind them. -/
theorem word32_bind_eq {α : Type} (image : Image) (k : Nat → Nat → Decoder α) (p : Nat) :
    (do let start ← get; let length ← word32 image; k start length : Decoder α) p =
      k p (image.wordAt p 4) (p + 4) := rfl

/-- The length of a long text stands before its bytes. -/
theorem longText_eq (image : Image) (p : Nat) :
    longText image p = EStateM.bind (textBody image p (image.wordAt p 4))
      (fun bytes => pure (Text.Latin.decode bytes)) (p + 4) :=
  word32_bind_eq image (fun start length =>
    EStateM.bind (textBody image start length) fun bytes => pure (Text.Latin.decode bytes)) p

/-- A text behind its length in one byte. -/
def shortText : Decoder String := do
  let start ← get
  let length ← byte image
  return Text.Latin.decode (← textBody image start length.toNat)

/-- Passes over a text behind its length in one byte. -/
def passShortText : Decoder Unit := do
  let start ← get
  let length ← byte image
  let _ ← textBody image start length.toNat

/-- The tag of a literal. -/
def literalTag : Decoder LiteralTag := do
  let tag ← byte image
  match LiteralTag.ofByte? tag with
  | some tag => return tag
  | none => fail (.unknownOpcode "literal tag" tag)

/-- A literal: a tag and the value behind it. A truth value is true when its byte is one. -/
def literal : Decoder Value := do
  match ← literalTag image with
  | .null => return .null
  | .bool => return .bool ((← byte image) = 1)
  | .int => return .int (← int32 image)
  | .float => return .float (← binary64 image)
  | .string => return .text (← shortText image)

/-- Passes over a literal. -/
def passLiteral : Decoder Unit := do
  match ← literalTag image with
  | .null => return
  | .bool => advance 1
  | .int => advance 4
  | .float => advance 8
  | .string => passShortText image

/-- Repeats a decoder and collects what it reads. -/
def times {α : Type} (item : Decoder α) : Nat → Decoder (List α)
  | 0 => return []
  | n + 1 => do
    let first ← item
    let rest ← times item n
    return first :: rest

end Decoder

end Bytewalk
