import Bytewalk.Code.Traversal
import Bytewalk.Proofs.Code.Literal

/-!
# Faults

What goes wrong where an image is read. Decoders fail over the form of the image and over nothing
else: an unknown first byte, a count that cannot be one, a text that does not end in time. Fixed
forms never fail, since zero bytes are read past the end.
-/

namespace Bytewalk

/-- The error is one over the form of an image and says nothing but its cause. -/
inductive Error.IsOverForm : Error → Prop
  /-- A count or a length cannot be one. -/
  | malformed (detail : String) : IsOverForm (.of (.malformed detail))
  /-- A byte begins nothing. -/
  | unknown (construct : String) (byte : UInt8) : IsOverForm (.of (.unknownOpcode construct byte))

theorem Error.IsOverForm.category_eq {e : Error} (h : e.IsOverForm) : e.category = .format := by
  cases h <;> rfl

namespace Decoder

variable {image : Image} {α β : Type}

/-- Where the decoder fails, it is over the form of the image. -/
def FailsOverForm (decoder : Decoder α) : Prop :=
  ∀ p e q, decoder p = .error e q → e.IsOverForm

theorem FailsOverForm.bind {decoder : Decoder α} {k : α → Decoder β} (h : FailsOverForm decoder)
    (hk : ∀ a, FailsOverForm (k a)) : FailsOverForm (decoder >>= k) := by
  intro p e q herror
  cases hread : decoder p with
  | ok a r =>
    rw [bind_of_ok hread] at herror
    exact hk a r e q herror
  | error e' r =>
    rw [bind_of_error hread] at herror
    cases herror
    exact h p e q hread

theorem failsOverForm_fail {cause : Cause} (h : (Error.of cause).IsOverForm) :
    FailsOverForm (fail cause : Decoder α) := by
  intro p e q herror
  cases herror
  exact h

/-- Fixed forms never fail. -/
theorem failsOverForm_of_ok {decoder : Decoder α} (h : ∀ p, ∃ a q, decoder p = .ok a q) :
    FailsOverForm decoder := by
  intro p e q herror
  obtain ⟨a, r, hread⟩ := h p
  rw [hread] at herror
  cases herror

theorem failsOverForm_pure (a : α) : FailsOverForm (pure a : Decoder α) :=
  failsOverForm_of_ok fun p => ⟨a, p, rfl⟩

theorem failsOverForm_position : FailsOverForm (get : Decoder Nat) :=
  failsOverForm_of_ok fun p => ⟨p, p, rfl⟩

theorem failsOverForm_byte : FailsOverForm (byte image) :=
  failsOverForm_of_ok fun _ => ⟨_, _, rfl⟩

theorem failsOverForm_present : FailsOverForm (present image) := by
  intro p e q herror
  rw [present] at herror
  split at herror <;> cases herror

theorem failsOverForm_count (least : Nat) : FailsOverForm (count image least) := by
  intro p e q herror
  simp only [count] at herror
  split at herror
  · exact failsOverForm_fail (.malformed _) _ e q herror
  · split at herror
    · exact failsOverForm_fail (.malformed _) _ e q herror
    · cases herror

theorem failsOverForm_textBody (start length : Nat) :
    FailsOverForm (textBody image start length) := by
  intro p e q herror
  rw [textBody] at herror
  split at herror
  · exact failsOverForm_fail (.malformed _) _ e q herror
  · cases herror

theorem failsOverForm_literal : FailsOverForm (literal image) := by
  have htag : FailsOverForm (literalTag image) := by
    refine failsOverForm_byte.bind fun code => ?_
    cases LiteralTag.ofByte? code with
    | none => exact failsOverForm_fail (.unknown _ _)
    | some tag => exact failsOverForm_pure tag
  have htext : FailsOverForm (shortText image) :=
    failsOverForm_position.bind fun start => failsOverForm_byte.bind fun length =>
      (failsOverForm_textBody start length.toNat).bind fun _ => failsOverForm_pure _
  refine htag.bind fun tag => ?_
  cases tag with
  | null => exact failsOverForm_pure _
  | bool => exact failsOverForm_byte.bind fun _ => failsOverForm_pure _
  | int | float =>
    exact (failsOverForm_of_ok fun _ => ⟨_, _, rfl⟩).bind fun _ => failsOverForm_pure _
  | string => exact htext.bind fun _ => failsOverForm_pure _

theorem failsOverForm_traverse (fields : List Field) :
    FailsOverForm (Traversal.traverse image fields) := by
  have hliteral : FailsOverForm (passLiteral image) := by
    rw [passLiteral_eq]
    exact failsOverForm_literal.bind fun _ => failsOverForm_pure _
  intro p e q herror
  -- The walk fails where a part, a count or a literal does.
  fun_induction Traversal.traverse image fields p with
  | case1 => cases herror
  | case5 => exact failsOverForm_fail (.unknown _ _) _ e q herror
  | case9 | case13 =>
    rename_i hcount
    cases herror
    exact failsOverForm_count _ _ _ _ hcount
  | case15 =>
    rename_i hpass
    exact hliteral _ e q (hpass.trans herror)
  | _ =>
    rename_i ih
    exact ih herror

theorem failsOverForm_members : FailsOverForm (members image) := by
  refine (failsOverForm_count 1).bind fun n => ?_
  -- One member after the other is passed over, as many as the count says.
  induction n with
  | zero => exact failsOverForm_pure _
  | succ n ih =>
    refine failsOverForm_position.bind fun start => (failsOverForm_traverse _).bind fun _ => ?_
    exact ih.bind fun _ => failsOverForm_pure _

end Decoder

end Bytewalk
