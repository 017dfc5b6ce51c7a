import Bytewalk.Error

/-!
# Coercion

What operators do with values. Two integers stay an integer and wrap; any other two numbers widen
to binary64 first. Division and comparison always widen. Types that do not meet are unequal, and an
error for every other operator.
-/

namespace Bytewalk.Value

/-- Whether two values may meet: they have one type, or both are numbers. -/
def compatible (a b : Value) : Bool :=
  a.type = b.type || (a.isNumeric && b.isNumeric)

/-- The truth of a value: null is false, numbers are true unless they are zero, texts have none. -/
def truthy : Value → Except Error Bool
  | .null => .ok false
  | .bool b => .ok b
  | .int n => .ok (n != 0)
  | .float x => .ok (!x.isZero)
  | .text _ => .error (.of (.notTruthable .string))

/-- Equality of the language. Values that may not meet are unequal. -/
def equals (a b : Value) : Bool :=
  match a, b with
  | .null, .null => true
  | .bool x, .bool y => x = y
  | .int x, .int y => x = y
  | .text x, .text y => x = y
  | _, _ =>
    match a.number?, b.number? with
    | some x, some y => x.eq y
    | _, _ => false

/-- An operator on widened numbers, refused for other values under the name `operator`. -/
def widened {α : Type} (operator : String) (op : Binary64 → Binary64 → α) (a b : Value) :
    Except Error α :=
  match a.number?, b.number? with
  | some x, some y => .ok (op x y)
  | _, _ => .error (.of (.invalidOperands operator a.type b.type))

/-- An operator that is exact on two integers and widens any other two numbers. -/
def arithmetic (operator : String) (ints : Int32 → Int32 → Int32)
    (floats : Binary64 → Binary64 → Binary64) (a b : Value) : Except Error Value :=
  match a, b with
  | .int x, .int y => .ok (.int (ints x y))
  | _, _ => (widened operator floats a b).map .float

/-- Addition; two texts are joined. -/
def add (a b : Value) : Except Error Value :=
  match a, b with
  | .text x, .text y => .ok (.text (x ++ y))
  | _, _ => arithmetic "+" (· + ·) (· + ·) a b

/-- Subtraction. -/
def subtract : Value → Value → Except Error Value :=
  arithmetic "-" (· - ·) (· - ·)

/-- Multiplication. -/
def multiply : Value → Value → Except Error Value :=
  arithmetic "*" (· * ·) (· * ·)

/-- Division, which is never integral. -/
def divide (a b : Value) : Except Error Value :=
  (widened "/" (· / ·) a b).map .float

/-- Whether `a` is below `b`. -/
def less : Value → Value → Except Error Bool :=
  widened "<" Binary64.lt

/-- Whether `a` is not above `b`. -/
def lessEqual : Value → Value → Except Error Bool :=
  widened "<=" Binary64.le

/-- Whether `a` is above `b`. -/
def greater : Value → Value → Except Error Bool :=
  widened ">" fun x y => y.lt x

/-- Whether `a` is not below `b`. -/
def greaterEqual : Value → Value → Except Error Bool :=
  widened ">=" fun x y => y.le x

/-- Inversion of a truth value; of a number it is one for a zero and zero for any other. -/
def not : Value → Except Error Value
  | .bool b => .ok (.bool !b)
  | .int n => .ok (.int (if n = 0 then 1 else 0))
  | .float x => .ok (.int (if x.isZero then 1 else 0))
  | v => .error (.of (.invalidOperand "!" v.type))

/-- Change of sign. -/
def negate : Value → Except Error Value
  | .int n => .ok (.int (-n))
  | .float x => .ok (.float (-x))
  | v => .error (.of (.invalidOperand "-" v.type))

/-- Values that may not meet are unequal. -/
theorem equals_eq_false_of_not_compatible {a b : Value} (h : compatible a b = false) :
    equals a b = false := by
  cases a <;> cases b <;>
    simp_all [compatible, equals, type, isNumeric, ValueType.isNumeric, number?]

end Bytewalk.Value
