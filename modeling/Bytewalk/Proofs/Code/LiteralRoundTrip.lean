import Bytewalk.Proofs.Code.Grammar

/-!
# Literals written and read

Reading a literal undoes writing it, up to what texts lose, and writing a value that has been read
gives back the bytes that it has been read from, up to truth values with a strange byte.

* `Value.normalize_eq_self_iff`: which values lose nothing.
* `Decoder.exists_wire_of_literal`: what is read is a literal of the wire grammar.
* `literal_roundTrip`: both directions.
-/

namespace Bytewalk

/-- A value survives as a literal unless it is a text that is too long or has a character without
a byte. -/
theorem Value.normalize_eq_self_iff (v : Value) :
    v.normalize = v ↔
      ∀ s, v = .text s → s.toList.length ≤ 255 ∧ ∀ c ∈ s.toList, c.toNat < 256 := by
  cases v with
  | text s =>
    simp only [Value.text.injEq, forall_eq', normalize]
    rw [← String.toList_inj, String.toList_ofList]
    constructor
    · intro hsame
      have hlength := congrArg List.length hsame
      rw [List.length_map, List.length_take] at hlength
      refine ⟨by omega, fun c hc => ?_⟩
      -- Whatever is in the shortened text has a byte, also the question mark.
      rw [← hsame, List.mem_map] at hc
      obtain ⟨c', -, rfl⟩ := hc
      split
      · assumption
      · decide
    · rintro ⟨hlength, hchars⟩
      rw [List.take_of_length_le hlength]
      calc s.toList.map (fun c => if c.toNat < 256 then c else '?')
          = s.toList.map id := List.map_congr_left fun c hc => if_pos (hchars c hc)
        _ = s.toList := List.map_id _
  | _ => simp [normalize]

namespace Decoder

variable {image : Image} {p q : Nat} {v : Value}

/-- Where reading a literal ends inside the image, its bytes are a literal of the wire grammar. -/
theorem exists_wire_of_literal (h : literal image p = .ok v q) (hq : q ≤ image.size) :
    ∃ w : Wire.Literal, w.Formed .whole ∧ w.encode = (image.extract p q).toList ∧
      image.Holds p w.encode := by
  have hpasses : Passes image [.literal] p q := by
    rw [passes_literal, passLiteral_eq]
    exact bind_of_ok h
  obtain ⟨w, hw, hencode⟩ := Yields.literal.exists_extract hpasses hq
    (Wire.Dialect.whole_allowsAll image _ p)
  refine ⟨w, hw, hencode, ?_⟩
  rw [hencode, Image.Holds, Array.toList_extract, List.extract_eq_take_drop]
  exact List.take_prefix _ _

/-- A truth value is true if its byte is one. -/
theorem literal_of_holds_bool {truth : UInt8} (h : image.Holds p [LiteralTag.bool.byte, truth]) :
    literal image p = .ok (.bool (truth = 1)) (p + 2) := by
  have hbyte : image.byteAt (p + 1) = truth := h.tail.byteAt
  simp [literal, literalTag, byte, bind, EStateM.bind, pure, EStateM.pure, h.byteAt, hbyte]

/-- A value that is read from the bytes of a value is that one, up to what it loses. -/
theorem encode_of_literal {v' : Value} (h : literal image p = .ok v q)
    (hholds : image.Holds p v'.encode) : v.encode = v'.encode := by
  rw [literal_of_holds hholds, EStateM.Result.ok.injEq] at h
  rw [← h.1, Value.encode_normalize]

end Decoder

/-- Literals round-trip both ways. Wherever the bytes of a value stand, reading consumes exactly
them and gives the value back, normalized; values that are no texts, and texts of at most 255
characters up to U+00FF, come back as they were. Where reading a literal ends inside the image, the
value that has been read is written as the bytes that were consumed, unless these are a truth value
with a byte other than zero and one: it is read as false, which is written as zero. -/
theorem literal_roundTrip :
    (∀ (before after : List UInt8) (v : Value),
      Decoder.literal (before ++ v.encode ++ after).toArray before.length =
        .ok v.normalize (before.length + v.encode.length)) ∧
    (∀ v : Value, v.normalize = v ↔
      ∀ s, v = .text s → s.toList.length ≤ 255 ∧ ∀ c ∈ s.toList, c.toNat < 256) ∧
    ∀ (image : Image) (p q : Nat) (v : Value),
      Decoder.literal image p = .ok v q → q ≤ image.size →
      v.encode = (image.extract p q).toList ∨
        ∃ truth : UInt8, truth ≠ 0 ∧ truth ≠ 1 ∧
          (image.extract p q).toList = [LiteralTag.bool.byte, truth] ∧
          v = .bool false ∧ v.encode = [LiteralTag.bool.byte, 0] := by
  refine ⟨fun before after v => Decoder.literal_of_holds (.of_append before v.encode after),
    Value.normalize_eq_self_iff, fun image p q v h hq => ?_⟩
  obtain ⟨w, hw, hencode, hholds⟩ := Decoder.exists_wire_of_literal h hq
  by_cases hstrange : ∃ truth, w = .bool truth ∧ truth ≠ 0 ∧ truth ≠ 1
  · obtain ⟨truth, rfl, hzero, hone⟩ := hstrange
    have hread := Decoder.literal_of_holds_bool hholds
    rw [h, EStateM.Result.ok.injEq, decide_eq_false hone] at hread
    obtain ⟨rfl, -⟩ := hread
    exact .inr ⟨truth, hzero, hone, hencode.symm, rfl, rfl⟩
  · -- Any other literal of the grammar is the bytes of a value, which is what is read.
    have hsource : w.Formed .source := by
      refine hw.restrict fun truth htruth => ?_
      by_cases hzero : truth = 0
      · exact .inl hzero
      · by_cases hone : truth = 1
        · exact .inr hone
        · exact absurd ⟨truth, htruth, hzero, hone⟩ hstrange
    obtain ⟨v', hv'⟩ := hsource.exists_value
    left
    rw [← hencode, ← hv']
    exact Decoder.encode_of_literal h (hv' ▸ hholds)

/-- A truth value with the byte seven is read as false and loses its byte; a text with a character
past U+00FF does not come back; an integer between other bytes is written as its own. -/
theorem literal_roundTrip_strange :
    (∃ truth : UInt8, truth ≠ 0 ∧ truth ≠ 1 ∧
      ((#[0x01, 7] : Image).extract 0 2).toList = [LiteralTag.bool.byte, truth]) ∧
    (Value.text "€").normalize ≠ .text "€" ∧
    (Value.int (-2)).encode =
      ((#[9, 0x02, 0xFE, 0xFF, 0xFF, 0xFF, 9] : Image).extract 1 6).toList := by
  refine ⟨?_, fun hsame => ?_, ?_⟩
  · rcases literal_roundTrip.2.2 #[0x01, 7] 0 2 (.bool false) rfl (by decide) with
      hsame | ⟨truth, hzero, hone, hbytes, -⟩
    · exact absurd hsame (by decide)
    · exact ⟨truth, hzero, hone, hbytes⟩
  · have hchars := (literal_roundTrip.2.1 _).1 hsame _ rfl
    exact absurd (hchars.2 '€' (by decide)) (by decide)
  · rcases literal_roundTrip.2.2 #[9, 0x02, 0xFE, 0xFF, 0xFF, 0xFF, 9] 1 6 (.int (-2)) rfl
      (by decide) with hsame | ⟨_, _, _, _, hbool, _⟩
    · exact hsame
    · cases hbool

end Bytewalk
