import Bytewalk.Error

/-!
# Numeric host functions

Host functions on numbers. Integers stay integers where the result is one; everything else is
computed in binary64.
-/

namespace Bytewalk.Library

/-- The type of an argument in words, for one that may be missing. -/
def describe : Option Value → String
  | some v => v.type.name
  | none => "nothing"

/-- The number that an argument widens to. -/
def number (function : String) (arg : Option Value) : Except Error Binary64 :=
  match arg.bind Value.number? with
  | some x => .ok x
  | none => .error (.of (.invalidArgument function ("expected a number, got " ++ describe arg)))

/-- A function that is one thing on integers and another on widened numbers. -/
def numeric (function : String) (ints : Int32 → Int32) (floats : Binary64 → Binary64)
    (args : List Value) : Except Error Value :=
  match args.head? with
  | some (.int n) => .ok (.int (ints n))
  | arg => do return .float (floats (← number function arg))

/-- The magnitude; the least integer is its own. -/
def abs : List Value → Except Error Value :=
  numeric "abs" (fun n => if n < 0 then -n else n) Binary64.abs

/-- The greatest whole number that is not above. -/
def floor : List Value → Except Error Value :=
  numeric "floor" id Binary64.floor

/-- The least whole number that is not below. -/
def ceil : List Value → Except Error Value :=
  numeric "ceil" id Binary64.ceil

/-- The square root. -/
def sqrt (args : List Value) : Except Error Value := do
  return .float (← number "sqrt" args.head?).sqrt

/-- The power of an integer, which wraps, by repeated squaring. -/
def wrappingPow (base : Int32) (exponent : Nat) : Int32 :=
  if exponent = 0 then 1
  else
    let half := wrappingPow (base * base) (exponent / 2)
    if exponent % 2 = 0 then half else base * half
termination_by exponent

/-- The power in binary64. -/
def floatPow (args : List Value) : Except Error Value := do
  let base ← number "pow" args.head?
  let exponent ← number "pow" args[1]?
  return .float (base.pow exponent)

/-- The power; two integers stay integral unless the exponent is negative. -/
def pow (args : List Value) : Except Error Value :=
  match args with
  | [.int base, .int exponent] =>
    if 0 ≤ exponent then .ok (.int (wrappingPow base exponent.toInt.toNat)) else floatPow args
  | _ => floatPow args

/-- Goes through arguments and keeps the best so far, together with its number. An argument takes
its place only when it is better. -/
def bestOf (function : String) (better : Binary64 → Binary64 → Bool) (best : Value)
    (x : Binary64) : List Value → Except Error Value
  | [] => .ok best
  | arg :: rest => do
    let y ← number function (some arg)
    if better y x then bestOf function better arg y rest else bestOf function better best x rest

/-- The first argument that no other is better than. -/
def extremum (function : String) (better : Binary64 → Binary64 → Bool) :
    List Value → Except Error Value
  | [] => .error (.of (.invalidArgument function "requires at least one argument"))
  | arg :: rest => do
    bestOf function better arg (← number function (some arg)) rest

/-- The least argument. -/
def min : List Value → Except Error Value :=
  extremum "min" Binary64.lt

/-- The greatest argument. -/
def max : List Value → Except Error Value :=
  extremum "max" fun x y => y.lt x

end Bytewalk.Library
