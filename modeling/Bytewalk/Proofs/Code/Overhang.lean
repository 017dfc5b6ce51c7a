import Mathlib.Order.Monotone.Basic
import Bytewalk.Proofs.Code.Literal
import Bytewalk.Proofs.Code.Walk

/-!
# How far walks lead

Reading past the end of an image is no failure, and so a walk may end behind the image. It does not
get far. What takes bytes behind the end has cost bytes inside: a class takes four bytes more when
it is closed, but it has begun with nine. So there is a bound on every position to which a walk will
ever come, which can be told from where the walk is:

- `reach_layout` and its siblings: the bound does not rise with any step, because every byte inside
  the image lowers it;
- `Stage.Within.walk`: a walk stays within its bound, whatever it finds;
- `Passes.reach_le`: behind the fields that have been passed over, the bound holds for the others.
-/

namespace Bytewalk

/-- The offset that a decoder has left behind. -/
def Decoder.offset {α : Type} : EStateM.Result Error Nat α → Nat
  | .ok _ q | .error _ q => q

theorem Decoder.offset_bind_pure {α β : Type} (decoder : Decoder α) (f : α → β) (p : Nat) :
    offset ((decoder >>= fun a => pure (f a)) p) = offset (decoder p) := by
  cases h : decoder p with
  | ok a q => rw [bind_of_ok h]; rfl
  | error e q => rw [bind_of_error h]; rfl

namespace Traversal

open Decoder

/-! ## Bounds -/

/-- How many bytes fields take past the end of the image before a part is due, which does not begin
there. -/
def drift : List Field → Nat
  | [] => 0
  | .raw width :: rest => width + drift rest
  | .nodes _ 0 :: rest => drift rest
  | .nodes _ (_ + 1) :: _ => 0
  | .optional _ :: rest | .optionalSymbol :: rest | .literal :: rest => 1 + drift rest
  | .counted _ :: rest | .symbols :: rest => 4 + drift rest

/-- By how many half bytes fields that begin inside the image lead past its end, apart from half a
byte for every byte that is left. The end is either met by the first field, behind which the others
drift, or later, when the first field has taken some bytes. -/
def overhang : List Field → Nat
  | [] => 0
  | .raw width :: rest => max (2 * (width + drift rest)) (overhang rest - width)
  | .nodes _ 0 :: rest => overhang rest
  | .nodes _ (_ + 1) :: rest | .optional _ :: rest =>
    max (23 + 2 * drift rest) (overhang rest - 1)
  | .counted _ :: rest => max (19 + 2 * drift rest) (overhang rest - 4)
  | .symbols :: rest => max (8 + 2 * drift rest) (overhang rest - 4)
  | .optionalSymbol :: rest => max (8 + 2 * drift rest) (overhang rest - 1)
  | .literal :: rest => max (18 + 2 * drift rest) (overhang rest - 1)

/-- Twice the furthest position to which a walk over the fields may come, unless it fails. -/
def reach (image : Image) (fields : List Field) (p : Nat) : Nat :=
  if p ≤ image.size then 3 * image.size - p + overhang fields else 2 * (p + drift fields)

variable {image : Image} {fields first rest : List Field} {kind : Node} {p q n : Nat}

theorem reach_of_le (h : p ≤ image.size) :
    reach image fields p = 3 * image.size - p + overhang fields :=
  if_pos h

theorem reach_of_lt (h : image.size < p) : reach image fields p = 2 * (p + drift fields) :=
  if_neg (Nat.not_le.2 h)

/-- A walk is within its bound. -/
theorem le_reach : 2 * p ≤ reach image fields p := by
  rw [reach]
  split <;> omega

/-! ### Several groups of fields -/

theorem drift_le_append : drift first ≤ drift (first ++ rest) := by
  fun_induction drift first with
  | case4 => exact Nat.zero_le _
  | _ => simp_all [drift]

theorem drift_append_le : drift (first ++ rest) ≤ drift first + drift rest := by
  fun_induction drift first with
  | case4 => exact Nat.zero_le _
  | _ => simp_all [drift]; try omega

/-- The bound of some fields is not above that of all. -/
theorem overhang_le_append : overhang first ≤ overhang (first ++ rest) := by
  fun_induction overhang first with
  | case1 => exact Nat.zero_le _
  | case3 => simpa only [List.cons_append, overhang]
  | case2 _ fields ih | case4 _ _ fields ih | case5 _ fields ih | case6 _ fields ih
    | case7 fields ih | case8 fields ih | case9 fields ih =>
    have hdrift : drift fields ≤ drift (fields ++ rest) := drift_le_append
    simp only [List.cons_append, overhang]
    omega

/-- The end of the image is met by the first fields, behind which the others drift, or later. -/
theorem overhang_append_le :
    overhang (first ++ rest) ≤ max (overhang first + 2 * drift rest) (overhang rest) := by
  fun_induction overhang first with
  | case1 => exact Nat.le_max_right _ _
  | case3 _ fields ih => simpa only [List.cons_append, overhang]
  | case2 _ fields ih | case4 _ _ fields ih | case5 _ fields ih | case6 _ fields ih
    | case7 fields ih | case8 fields ih | case9 fields ih =>
    have hdrift : drift (fields ++ rest) ≤ drift fields + drift rest := drift_append_le
    simp only [List.cons_append, overhang]
    omega

theorem reach_le_append : reach image first p ≤ reach image (first ++ rest) p := by
  have hoverhang : overhang first ≤ overhang (first ++ rest) := overhang_le_append
  have hdrift : drift first ≤ drift (first ++ rest) := drift_le_append
  simp only [reach]
  split <;> omega

/-! ## Fields -/

/-- No layout leads further than that of a class, whose numbers and symbol stand behind its first
byte, or that of the reserved opcode. -/
theorem overhang_le_of_layout {byte : UInt8} (h : kind.layout? byte = some fields) :
    overhang fields ≤ 24 := by
  cases kind with
  | statement =>
    obtain ⟨op, -, rfl⟩ := Option.map_eq_some_iff.1 h
    cases op <;> decide
  | expression =>
    obtain ⟨op, -, rfl⟩ := Option.map_eq_some_iff.1 h
    cases op <;> decide

theorem reach_raw {width : Nat} :
    reach image rest (p + width) ≤ reach image (.raw width :: rest) p := by
  simp only [reach, drift, overhang]
  split <;> split <;> omega

theorem reach_nodes_zero : reach image (.nodes kind 0 :: rest) p = reach image rest p := by
  simp only [reach, drift, overhang]

/-- A part begins inside the image, and its first byte pays for all its fields. -/
theorem reach_layout {found : List Field} (h : kind.layout? (image.byteAt p) = some found) :
    reach image (found ++ .nodes kind n :: rest) (p + 1) ≤
      reach image (.nodes kind (n + 1) :: rest) p := by
  have hne : image.byteAt p ≠ 0 := by
    intro hzero
    rw [hzero, Node.layout?_zero] at h
    cases h
  have hinside := Image.lt_size_of_byteAt_ne_zero hne
  have hlayout := overhang_le_of_layout h
  have happend : overhang (found ++ .nodes kind n :: rest) ≤ _ := overhang_append_le
  rw [reach_of_le hinside, reach_of_le (Nat.le_of_lt hinside)]
  cases n <;> simp only [drift, overhang] at happend ⊢ <;> omega

/-- Several parts are the first one and the others. -/
theorem reach_nodes_succ :
    reach image (.nodes kind 1 :: .nodes kind n :: rest) p ≤
      reach image (.nodes kind (n + 1) :: rest) p := by
  simp only [reach, drift, overhang]
  cases n <;> simp only [drift, overhang] <;> split <;> omega

theorem reach_missing :
    reach image rest (p + 1) ≤ reach image (.optional kind :: rest) p := by
  simp only [reach, drift, overhang]
  split <;> split <;> omega

theorem reach_there (h : image.byteAt p ≠ 0) :
    reach image (.nodes kind 1 :: rest) p ≤ reach image (.optional kind :: rest) p := by
  rw [reach_of_le (Nat.le_of_lt (Image.lt_size_of_byteAt_ne_zero h)),
    reach_of_le (Nat.le_of_lt (Image.lt_size_of_byteAt_ne_zero h))]
  simp only [overhang]
  exact Nat.le_refl _

theorem reach_missingSymbol :
    reach image rest (p + 1) ≤ reach image (.optionalSymbol :: rest) p := by
  simp only [reach, drift, overhang]
  split <;> split <;> omega

theorem reach_optionalSymbol (h : image.byteAt p ≠ 0) :
    reach image rest (p + 4) ≤ reach image (.optionalSymbol :: rest) p := by
  have hinside := Image.lt_size_of_byteAt_ne_zero h
  simp only [reach, drift, overhang]
  split <;> split <;> omega

/-- A count stands before enough bytes for its elements, and so there are no elements where it
meets the end of the image. -/
theorem reach_counted (h : count image 1 p = .ok n q) :
    reach image (.nodes kind n :: rest) q ≤ reach image (.counted kind :: rest) p := by
  obtain ⟨-, hfits, rfl⟩ := count_eq_ok.1 h
  simp only [Image.remaining, reach] at hfits ⊢
  cases n <;> simp only [drift, overhang] <;> split <;> split <;> omega

theorem reach_symbols (h : count image 4 p = .ok n q) :
    reach image rest (q + n * 4) ≤ reach image (.symbols :: rest) p := by
  obtain ⟨-, hfits, rfl⟩ := count_eq_ok.1 h
  simp only [Image.remaining, reach, drift, overhang] at hfits ⊢
  split <;> split <;> omega

/-- A text takes its length and no byte behind the end of the image, also where it fails. -/
theorem offset_shortText_le (image : Image) (p : Nat) :
    p < offset (shortText image p) ∧ offset (shortText image p) ≤ max image.size (p + 1) := by
  have hbody : shortText image p = (textBody image p (image.byteAt p).toNat >>= fun bytes =>
      pure (Text.Latin.decode bytes)) (p + 1) := rfl
  rw [hbody]
  by_cases hfits : image.remaining (p + 1) < (image.byteAt p).toNat
  · have herror : ∃ e, textBody image p (image.byteAt p).toNat (p + 1) = .error e (p + 1) :=
      ⟨_, by rw [textBody, if_pos hfits, fail_eq]⟩
    obtain ⟨e, herror⟩ := herror
    rw [bind_of_error herror, offset]
    omega
  · have hok : ∃ bytes, textBody image p (image.byteAt p).toNat (p + 1) =
        .ok bytes (p + 1 + (image.byteAt p).toNat) := ⟨_, by rw [textBody, if_neg hfits]⟩
    obtain ⟨bytes, hok⟩ := hok
    rw [Image.remaining] at hfits
    rw [bind_of_ok hok]
    change p < p + 1 + (image.byteAt p).toNat ∧ p + 1 + (image.byteAt p).toNat ≤ _
    omega

/-- Behind the end of the image there is only null. A literal that begins inside takes nine bytes at
most, or it is a text. -/
theorem offset_literal_le (image : Image) (p : Nat) :
    p < offset (literal image p) ∧ offset (literal image p) ≤ max image.size (p + 9) ∧
      (image.size ≤ p → offset (literal image p) = p + 1) := by
  cases htag : LiteralTag.ofByte? (image.byteAt p) with
  | none =>
    have hfails : literalTag image p =
        .error (.of (.unknownOpcode "literal tag" (image.byteAt p))) (p + 1) := by
      simp [literalTag, byte, bind, EStateM.bind, htag, fail_eq]
    rw [literal, bind_of_error hfails, offset]
    omega
  | some tag =>
    have hreads : literalTag image p = .ok tag (p + 1) := by
      simp [literalTag, byte, bind, EStateM.bind, htag, pure, EStateM.pure]
    have hinside : tag ≠ .null → p < image.size := by
      intro hne
      refine Image.lt_size_of_byteAt_ne_zero fun hzero => hne ?_
      rw [hzero] at htag
      exact (Option.some.inj htag).symm
    rw [literal, bind_of_ok hreads]
    cases tag with
    | null =>
      change p < p + 1 ∧ p + 1 ≤ _ ∧ (_ → p + 1 = p + 1)
      omega
    | bool =>
      have := hinside (by decide)
      change p < p + 1 + 1 ∧ p + 1 + 1 ≤ _ ∧ (_ → p + 1 + 1 = p + 1)
      omega
    | int =>
      have := hinside (by decide)
      change p < p + 1 + 4 ∧ p + 1 + 4 ≤ _ ∧ (_ → p + 1 + 4 = p + 1)
      omega
    | float =>
      have := hinside (by decide)
      change p < p + 1 + 8 ∧ p + 1 + 8 ≤ _ ∧ (_ → p + 1 + 8 = p + 1)
      omega
    | string =>
      have := hinside (by decide)
      have htext := offset_shortText_le image (p + 1)
      have hsame : offset ((shortText image >>= fun text => pure (Value.text text)) (p + 1)) =
          offset (shortText image (p + 1)) := offset_bind_pure ..
      change p < offset ((shortText image >>= fun text => pure (Value.text text)) (p + 1)) ∧
        offset ((shortText image >>= fun text => pure (Value.text text)) (p + 1)) ≤ _ ∧
        (_ → offset ((shortText image >>= fun text => pure (Value.text text)) (p + 1)) = _)
      omega

theorem reach_literal {v : Value} (h : literal image p = .ok v q) :
    reach image rest q ≤ reach image (.literal :: rest) p := by
  obtain ⟨hlt, hle, hbehind⟩ := offset_literal_le image p
  rw [h, offset] at hlt hle hbehind
  simp only [reach, drift, overhang]
  split <;> split <;> omega

/-! ### Failures -/

/-- A count takes four bytes, also where it is refused. -/
theorem offset_count (image : Image) (least p : Nat) : offset (count image least p) = p + 4 := by
  simp only [count, fail_eq]
  split
  · rfl
  · split <;> rfl

theorem count_le_reach_counted (least : Nat) :
    2 * offset (count image least p) ≤ reach image (.counted kind :: rest) p := by
  rw [offset_count]
  simp only [reach, drift, overhang]
  split <;> omega

theorem count_le_reach_symbols (least : Nat) :
    2 * offset (count image least p) ≤ reach image (.symbols :: rest) p := by
  rw [offset_count]
  simp only [reach, drift, overhang]
  split <;> omega

theorem literal_le_reach :
    2 * offset (literal image p) ≤ reach image (.literal :: rest) p := by
  obtain ⟨-, hle, hbehind⟩ := offset_literal_le image p
  simp only [reach, drift, overhang]
  split <;> omega

/-! ## Walks -/

namespace Stage

/-- Where the cursor of the walk is. -/
def position : Stage → Nat
  | .ahead _ p => p
  | .ended result => Decoder.offset result

variable (image) in
/-- The bound of the stage is within a limit. A walk fails one byte behind its bound at most. -/
def Within (limit : Nat) : Stage → Prop
  | .ahead fields p => reach image fields p ≤ limit
  | .ended (.ok _ q) => 2 * q ≤ limit
  | .ended (.error _ q) => 2 * q ≤ limit + 2

variable {limit : Nat}

theorem Within.position_le {stage : Stage} (h : stage.Within image limit) :
    2 * stage.position ≤ limit + 2 := by
  match stage, h with
  | .ahead fields p, h =>
    have hle : 2 * p ≤ reach image fields p := le_reach
    exact Nat.le_trans hle (Nat.le_trans h (Nat.le_add_right _ _))
  | .ended (.ok _ q), h => exact Nat.le_trans h (Nat.le_add_right _ _)
  | .ended (.error _ q), h => exact h

/-- A decoder that fails ends the walk within the limit, if its own end is. -/
theorem Within.behind {α : Type} {next : α → Nat → Stage} {r : EStateM.Result Error Nat α}
    (hend : 2 * offset r ≤ limit) (h : ∀ a q, r = .ok a q → (next a q).Within image limit) :
    (Stage.behind next r).Within image limit := by
  cases r with
  | ok a q => exact h a q rfl
  | error e q => exact Nat.le_trans hend (Nat.le_add_right _ _)

theorem le_position_behind {α : Type} {next : α → Nat → Stage} {r : EStateM.Result Error Nat α}
    (hend : p ≤ offset r) (hnext : ∀ a q, q ≤ (next a q).position) :
    p ≤ (Stage.behind next r).position := by
  cases r with
  | ok a q => exact Nat.le_trans hend (hnext a q)
  | error e q => exact hend

/-- The cursor only goes forwards. -/
theorem le_position_step (image : Image) (fields : List Field) (p : Nat) :
    p ≤ (step image fields p).position := by
  fun_cases step image fields p with
  | case1 | case3 | case7 => exact Nat.le_refl _
  | case2 | case4 | case5 | case6 => exact Nat.le_add_right _ _
  | case9 =>
    dsimp only [position]
    split <;> omega
  | case8 =>
    exact le_position_behind (by rw [offset_count]; omega) fun _ _ => Nat.le_refl _
  | case10 =>
    exact le_position_behind (by rw [offset_count]; omega) fun _ _ => Nat.le_add_right _ _
  | case11 =>
    refine le_position_behind ?_ fun _ _ => Nat.le_refl _
    rw [passLiteral_eq, offset_bind_pure]
    exact Nat.le_of_lt (offset_literal_le image p).1

theorem monotone_position_walk (image : Image) (stage : Stage) :
    Monotone fun n => (Traversal.walk image n stage).position := by
  refine monotone_nat_of_le_succ fun n => ?_
  induction n generalizing stage with
  | zero =>
    cases stage with
    | ahead fields p => exact le_position_step image fields p
    | ended result => exact Nat.le_refl _
  | succ n ih =>
    cases stage with
    | ahead fields p => exact ih _
    | ended result => exact Nat.le_refl _

/-- A step stays within the limit. -/
theorem Within.step (h : (Stage.ahead fields p).Within image limit) :
    (Traversal.step image fields p).Within image limit := by
  rw [Within] at h
  fun_cases Traversal.step image fields p with
  | case1 => exact Nat.le_trans le_reach h
  | case2 width rest => exact Nat.le_trans reach_raw h
  | case3 kind rest => exact Nat.le_trans (Nat.le_of_eq reach_nodes_zero.symm) h
  | case4 p kind n rest found hlayout => exact Nat.le_trans (reach_layout hlayout) h
  | case5 p kind n rest hlayout =>
    -- The byte that begins nothing is consumed.
    exact Nat.add_le_add_right (Nat.le_trans le_reach h) 2
  | case6 p kind rest hzero => exact Nat.le_trans reach_missing h
  | case7 p kind rest hzero => exact Nat.le_trans (reach_there hzero) h
  | case8 kind rest =>
    exact .behind (Nat.le_trans (count_le_reach_counted 1) h)
      fun n q hcount => Nat.le_trans (reach_counted hcount) h
  | case9 rest =>
    by_cases hzero : image.byteAt p = 0
    · rw [if_pos hzero]
      exact Nat.le_trans reach_missingSymbol h
    · rw [if_neg hzero]
      exact Nat.le_trans (reach_optionalSymbol hzero) h
  | case10 rest =>
    exact .behind (Nat.le_trans (count_le_reach_symbols 4) h)
      fun n q hcount => Nat.le_trans (reach_symbols hcount) h
  | case11 rest =>
    rw [passLiteral_eq]
    refine .behind ?_ fun _ q hpass => ?_
    · rw [offset_bind_pure]
      exact Nat.le_trans literal_le_reach h
    · obtain ⟨v, _, hread, hend⟩ := eq_ok_of_bind hpass
      cases hend
      exact Nat.le_trans (reach_literal hread) h

/-- A walk stays within the limit. -/
theorem Within.walk {stage : Stage} (h : stage.Within image limit) (n : Nat) :
    (walk image n stage).Within image limit := by
  induction n generalizing stage with
  | zero => cases stage <;> exact h
  | succ n ih =>
    cases stage with
    | ahead fields p => exact ih h.step
    | ended result => exact h

end Stage

/-- A traversal ends within the bound for its beginning, or one byte behind it where it fails. -/
theorem traverse_within (image : Image) (fields : List Field) (p : Nat) :
    (Stage.ended (traverse image fields p)).Within image (reach image fields p) := by
  have hbegin : (Stage.ahead fields p).Within image (reach image fields p) := Nat.le_refl _
  have hwalk := hbegin.walk ((Stage.ahead fields p).potential image)
  rwa [walk_of_potential_le image (Nat.le_refl _)] at hwalk

/-! ## Decoders -/

/-- The furthest to which a decoder leads is within the bound for the fields, or one byte behind
it. -/
def StaysWithin {α : Type} (image : Image) (fields : List Field) (decoder : Decoder α) : Prop :=
  ∀ p, 2 * offset (decoder p) ≤ reach image fields p + 2

theorem staysWithin_traverse (fields : List Field) :
    StaysWithin image fields (traverse image fields) :=
  fun p => (traverse_within image fields p).position_le

end Traversal

open Traversal

variable {image : Image} {first rest : List Field} {p q : Nat}

/-- What has been passed over does not raise the bound for what is still ahead. -/
theorem Passes.reach_le (h : Passes image first p q) :
    reach image rest q ≤ reach image (first ++ rest) p := by
  rw [Passes] at h
  -- The cases are those of the walk; a field that fails ends it.
  fun_induction traverse image first p with
  | case1 p => cases h; exact Nat.le_refl _
  | case2 p width fields ih => exact Nat.le_trans (ih h) reach_raw
  | case3 p kind fields ih => exact Nat.le_trans (ih h) (Nat.le_of_eq reach_nodes_zero.symm)
  | case4 p kind n fields found hlayout ih =>
    have hrest := ih h
    rw [List.append_assoc] at hrest
    exact Nat.le_trans hrest (reach_layout hlayout)
  | case5 => simp [Decoder.fail_eq] at h
  | case6 p kind fields hzero ih => exact Nat.le_trans (ih h) reach_missing
  | case7 p kind fields hzero ih => exact Nat.le_trans (ih h) (reach_there hzero)
  | case8 p kind fields n r hcount ih => exact Nat.le_trans (ih h) (reach_counted hcount)
  | case9 => cases h
  | case10 p fields hzero ih => exact Nat.le_trans (ih h) reach_missingSymbol
  | case11 p fields hzero ih => exact Nat.le_trans (ih h) (reach_optionalSymbol hzero)
  | case12 p fields n r hcount ih => exact Nat.le_trans (ih h) (reach_symbols hcount)
  | case13 => cases h
  | case14 p fields a r hliteral ih =>
    rw [Decoder.passLiteral_eq] at hliteral
    obtain ⟨v, _, hread, hend⟩ := eq_ok_of_bind hliteral
    cases hend
    exact Nat.le_trans (ih h) (reach_literal hread)
  | case15 => cases h

/-- So many statements are passed over within the bound, also where one of them fails. -/
private theorem offset_passMembers_le (n p : Nat) :
    2 * Decoder.offset (Decoder.passMembers image n p) ≤
      reach image [.nodes .statement n] p + 2 := by
  induction n generalizing p with
  | zero => exact Nat.le_trans le_reach (Nat.le_add_right _ _)
  | succ n ih =>
    have hwhole : reach image ([.statement] ++ [.nodes .statement n]) p ≤
        reach image [.nodes .statement (n + 1)] p := reach_nodes_succ
    cases hfirst : Decoder.passStatement image p with
    | error e q =>
      have hend : 2 * Decoder.offset (Decoder.passStatement image p) ≤
          reach image [.statement] p + 2 := staysWithin_traverse [.statement] p
      have hpart : reach image [.statement] p ≤ reach image [.nodes .statement (n + 1)] p :=
        Nat.le_trans reach_le_append hwhole
      rw [hfirst] at hend
      have hfails : Decoder.passMembers image (n + 1) p = .error e q :=
        (bind_of_ok rfl).trans (bind_of_error hfirst)
      rw [hfails]
      exact Nat.le_trans hend (Nat.add_le_add_right hpart 2)
    | ok _ q =>
      have hgoes : Decoder.passMembers image (n + 1) p =
          (Decoder.passMembers image n >>= fun others => pure (p :: others)) q :=
        (bind_of_ok rfl).trans (bind_of_ok hfirst)
      have hbehind := Nat.le_trans (Passes.reach_le hfirst) hwhole
      rw [hgoes, Decoder.offset_bind_pure]
      exact Nat.le_trans (ih q) (Nat.add_le_add_right hbehind 2)

theorem staysWithin_members : StaysWithin image [.counted .statement] (Decoder.members image) := by
  intro p
  cases hcount : Decoder.count image 1 p with
  | error e q =>
    have hend : 2 * Decoder.offset (Decoder.count image 1 p) ≤
        reach image [.counted .statement] p := count_le_reach_counted 1
    have hfails : Decoder.members image p = .error e q := bind_of_error hcount
    rw [hcount] at hend
    rw [hfails]
    exact Nat.le_trans hend (Nat.le_add_right _ _)
  | ok n q =>
    have hgoes : Decoder.members image p = Decoder.passMembers image n q := bind_of_ok hcount
    rw [hgoes]
    exact Nat.le_trans (offset_passMembers_le n q) (Nat.add_le_add_right (reach_counted hcount) 2)

end Bytewalk
