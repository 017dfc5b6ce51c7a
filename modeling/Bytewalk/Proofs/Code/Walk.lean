import Bytewalk.Proofs.Code.Passage

/-!
# Walks

Passing over program parts one step at a time. A step looks at the first field that is still ahead
and either ends the walk or leaves fields ahead at a position; nothing in it repeats. What a
traversal arrives at is what the steps arrive at, and they arrive there soon:

- `Stage.result_step`: a step leads towards the same result;
- `Stage.potential_step_lt`: every step uses up potential. A part takes a byte out of the image,
  which is worth more than all the fields that the part puts ahead, and past the end of the image
  no part begins;
- `walk_of_potential_le`: a walk has ended when its potential is used up, so that the number of
  steps is at most proportional to the bytes that are left.
-/

namespace Bytewalk.Traversal

open Decoder

variable (image : Image)

/-- Where a walk is. -/
inductive Stage where
  /-- These fields are still ahead at the position. -/
  | ahead (fields : List Field) (p : Nat)
  /-- The walk is over. -/
  | ended (result : EStateM.Result Error Nat Unit)

/-- The walk is over unless a decoder has got through, and then goes on behind it. -/
def Stage.behind {α : Type} (next : α → Nat → Stage) : EStateM.Result Error Nat α → Stage
  | .ok a q => next a q
  | .error e q => .ended (.error e q)

/-- One step over the first field. -/
def step : List Field → Nat → Stage
  | [], p => .ended (.ok () p)
  | .raw width :: rest, p => .ahead rest (p + width)
  | .nodes _ 0 :: rest, p => .ahead rest p
  | .nodes kind (n + 1) :: rest, p =>
    match kind.layout? (image.byteAt p) with
    | some fields => .ahead (fields ++ .nodes kind n :: rest) (p + 1)
    | none => .ended (fail (.unknownOpcode kind.name (image.byteAt p)) (p + 1))
  | .optional kind :: rest, p =>
    if image.byteAt p = 0 then .ahead rest (p + 1) else .ahead (.nodes kind 1 :: rest) p
  | .counted kind :: rest, p =>
    Stage.behind (fun n q => .ahead (.nodes kind n :: rest) q) (count image 1 p)
  | .optionalSymbol :: rest, p =>
    .ahead rest (if image.byteAt p = 0 then p + 1 else p + 4)
  | .symbols :: rest, p =>
    Stage.behind (fun n q => .ahead rest (q + n * 4)) (count image 4 p)
  | .literal :: rest, p =>
    Stage.behind (fun _ q => .ahead rest q) (passLiteral image p)

/-- Where a walk is after so many steps. -/
def walk : Nat → Stage → Stage
  | n + 1, .ahead fields p => walk n (step image fields p)
  | _, stage => stage

/-! ## Results -/

/-- What a walk arrives at. -/
def Stage.result : Stage → EStateM.Result Error Nat Unit
  | .ahead fields p => traverse image fields p
  | .ended result => result

/-- A step leads towards the same result. -/
theorem Stage.result_step (fields : List Field) (p : Nat) :
    (step image fields p).result image = traverse image fields p := by
  -- The cases are those of the traversal; where a decoder decides, it decides the step as well.
  fun_cases traverse image fields p with
  | case1 | case2 | case3 => rfl
  | case4 p kind n rest found hlayout => simp [step, hlayout, Stage.result]
  | case5 p kind n rest hlayout => simp [step, hlayout, Stage.result]
  | case6 p kind rest hzero => simp [step, hzero, Stage.result]
  | case7 p kind rest hzero => simp [step, hzero, Stage.result]
  | case10 p rest hzero => simp [step, hzero, Stage.result]
  | case11 p rest hzero => simp [step, hzero, Stage.result]
  | case8 p kind rest n q h | case9 p kind rest n q h | case12 p rest n q h | case13 p rest n q h
    | case14 p rest n q h | case15 p rest n q h => simp [step, h, Stage.behind, Stage.result]

/-! ## Potential -/

/-- No layout takes more steps than that of a loop. -/
theorem totalWeight_le_of_layout {kind : Node} {byte : UInt8} {fields : List Field}
    (h : kind.layout? byte = some fields) : totalWeight fields ≤ 6 := by
  cases kind with
  | statement =>
    obtain ⟨op, -, rfl⟩ := Option.map_eq_some_iff.1 h
    cases op <;> decide
  | expression =>
    obtain ⟨op, -, rfl⟩ := Option.map_eq_some_iff.1 h
    cases op <;> decide

theorem weight_pos (field : Field) : 0 < weight field := by
  cases field <;> exact Nat.succ_pos _

theorem totalWeight_cons (field : Field) (rest : List Field) :
    totalWeight (field :: rest) = weight field + totalWeight rest :=
  rfl

theorem totalWeight_append (first second : List Field) :
    totalWeight (first ++ second) = totalWeight first + totalWeight second := by
  induction first with
  | nil => exact (Nat.zero_add _).symm
  | cons field rest ih =>
    rw [List.cons_append, totalWeight_cons, totalWeight_cons, ih, Nat.add_assoc]

namespace Stage

/-- How many steps a walk takes at most. A byte that is left counts for more than all that a
layout puts ahead. -/
def potential : Stage → Nat
  | .ahead fields p => 7 * (image.size - p) + totalWeight fields + 1
  | .ended _ => 0

variable {image} {fields fields' : List Field} {p q : Nat}

/-- Going forward with less ahead uses up potential. -/
theorem potential_lt_of_le (hle : p ≤ q) (hlt : totalWeight fields' < totalWeight fields) :
    (Stage.ahead fields' q).potential image < (Stage.ahead fields p).potential image := by
  simp only [potential]
  omega

/-- Going forward over a field uses up potential. -/
theorem potential_rest_lt {field : Field} {rest : List Field} (hle : p ≤ q) :
    (Stage.ahead rest q).potential image < (Stage.ahead (field :: rest) p).potential image :=
  potential_lt_of_le hle (Nat.lt_add_of_pos_left (weight_pos field))

/-- A part uses up potential, whatever its fields: it begins inside the image. -/
theorem potential_layout_lt {kind : Node} {n : Nat} {found rest : List Field}
    (hlayout : kind.layout? (image.byteAt p) = some found) :
    (Stage.ahead (found ++ .nodes kind n :: rest) (p + 1)).potential image <
      (Stage.ahead (.nodes kind (n + 1) :: rest) p).potential image := by
  have hweight := totalWeight_le_of_layout hlayout
  have hne : image.byteAt p ≠ 0 := by
    intro hzero
    rw [hzero, Node.layout?_zero] at hlayout
    cases hlayout
  have hinside := Image.lt_size_of_byteAt_ne_zero hne
  simp only [potential, totalWeight_append, totalWeight_cons, weight]
  omega

/-- A decoder that fails ends the walk, and so it is enough to look behind one that does not. -/
theorem potential_behind_lt {α : Type} {next : α → Nat → Stage}
    {r : EStateM.Result Error Nat α}
    (h : ∀ a q, r = .ok a q →
      (next a q).potential image < (Stage.ahead fields p).potential image) :
    (Stage.behind next r).potential image < (Stage.ahead fields p).potential image := by
  cases r with
  | ok a q => exact h a q rfl
  | error e q => exact Nat.succ_pos _

variable (image fields p)

/-- Every step uses up potential. -/
theorem potential_step_lt :
    (step image fields p).potential image < (Stage.ahead fields p).potential image := by
  -- A part that may be missing, or that is counted, has more ahead than the part alone.
  have hfewer : ∀ {rest : List Field}, 1 + totalWeight rest < 2 + totalWeight rest :=
    Nat.add_lt_add_right Nat.one_lt_two _
  fun_cases step image fields p with
  | case1 => exact Nat.succ_pos _
  | case2 width rest => exact potential_rest_lt (Nat.le_add_right _ _)
  | case3 kind rest => exact potential_rest_lt (Nat.le_refl _)
  | case4 p kind n rest found hlayout => exact potential_layout_lt hlayout
  | case5 => exact Nat.succ_pos _
  | case6 kind rest hzero => exact potential_rest_lt (Nat.le_succ _)
  | case7 kind rest hzero => exact potential_lt_of_le (Nat.le_refl _) hfewer
  | case8 kind rest =>
    exact potential_behind_lt fun n q hcount => potential_lt_of_le (le_of_count hcount) hfewer
  | case9 rest => exact potential_rest_lt (by split <;> omega)
  | case10 rest =>
    exact potential_behind_lt fun n q hcount =>
      potential_rest_lt (Nat.le_add_right_of_le (le_of_count hcount))
  | case11 rest =>
    exact potential_behind_lt fun a q hliteral => potential_rest_lt (le_of_passLiteral hliteral)

end Stage

/-- A walk that is given its potential arrives at its result. -/
theorem walk_of_potential_le {n : Nat} {stage : Stage} (h : stage.potential image ≤ n) :
    walk image n stage = .ended (stage.result image) := by
  induction n generalizing stage with
  | zero =>
    cases stage with
    | ahead fields p => exact absurd h (Nat.not_succ_le_zero _)
    | ended result => rfl
  | succ n ih =>
    cases stage with
    | ahead fields p =>
      have hlt := Stage.potential_step_lt image fields p
      rw [walk, ih (Nat.le_of_lt_succ (Nat.lt_of_lt_of_le hlt h)), Stage.result_step]
      rfl
    | ended result => rfl

/-- A walk over one part ends within so many steps. -/
theorem walk_node {kind : Node} {n p : Nat} (h : 7 * (image.size - p) + 2 ≤ n) :
    walk image n (.ahead [.nodes kind 1] p) = .ended (traverse image [.nodes kind 1] p) :=
  walk_of_potential_le image h

end Bytewalk.Traversal
