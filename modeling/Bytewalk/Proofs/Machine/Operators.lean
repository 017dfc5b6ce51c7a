import Bytewalk.Machine.Expression

/-!
# Failures of operators

Operators and conditions fail over the types of values only, and their errors say nothing but
that: they have no offset and no frames.
-/

namespace Bytewalk

/-- The error is one over types and says nothing but its cause. -/
def Error.IsOverTypes (e : Error) : Prop :=
  ∃ cause, e = .of cause ∧ cause.category = .typing

theorem Error.IsOverTypes.category_eq {e : Error} (h : e.IsOverTypes) :
    e.cause.category = .typing := by
  obtain ⟨cause, rfl, hcategory⟩ := h
  exact hcategory

theorem Error.IsOverTypes.offset_eq {e : Error} (h : e.IsOverTypes) : e.offset = none := by
  obtain ⟨cause, rfl, -⟩ := h
  rfl

variable {a b v : Value} {e : Error}

/-- A failure of a mapped result is a failure of the result. -/
private theorem eq_error_of_map {α β : Type} {f : α → β} {result : Except Error α}
    (h : result.map f = .error e) : result = .error e := by
  cases result with
  | ok a => cases h
  | error e' => cases h; rfl

theorem isOverTypes_of_truthy (h : v.truthy = .error e) : e.IsOverTypes := by
  cases v <;> cases h
  exact ⟨_, rfl, rfl⟩

theorem isOverTypes_of_unary {op : UnaryOp} (h : op.apply v = .error e) : e.IsOverTypes := by
  cases op <;> cases v <;> cases h <;> exact ⟨_, rfl, rfl⟩

private theorem isOverTypes_of_widened {α : Type} {operator : String}
    {op : Binary64 → Binary64 → α} (h : Value.widened operator op a b = .error e) :
    e.IsOverTypes := by
  rw [Value.widened] at h
  split at h
  · cases h
  · cases h
    exact ⟨_, rfl, rfl⟩

private theorem isOverTypes_of_arithmetic {operator : String} {ints : Int32 → Int32 → Int32}
    {floats : Binary64 → Binary64 → Binary64}
    (h : Value.arithmetic operator ints floats a b = .error e) : e.IsOverTypes := by
  rw [Value.arithmetic.eq_def] at h
  split at h
  · cases h
  · exact isOverTypes_of_widened (eq_error_of_map h)

theorem isOverTypes_of_binary {op : BinaryOp} (h : op.apply a b = .error e) : e.IsOverTypes := by
  cases op with
  | add =>
    rw [BinaryOp.apply, Value.add.eq_def] at h
    split at h
    · cases h
    · exact isOverTypes_of_arithmetic h
  | subtract | multiply => exact isOverTypes_of_arithmetic h
  | divide | less | lessEqual | greater | greaterEqual =>
    exact isOverTypes_of_widened (eq_error_of_map h)
  | equal | notEqual | member => cases h

end Bytewalk
