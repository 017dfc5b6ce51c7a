/-!
# Decimal numerals

Reading natural numbers below a bound: an optional plus sign and at least one digit.
-/

namespace Bytewalk.Text

/-- Why a text is not such a number. -/
inductive NumeralFault where
  /-- There is no character at all. -/
  | empty
  /-- A character is no digit, or there is no digit. -/
  | invalidDigit
  /-- The number reaches the bound. -/
  | tooLarge
  deriving DecidableEq

namespace NumeralFault

/-- The fault in words. -/
def message : NumeralFault → String
  | .empty => "cannot parse integer from empty string"
  | .invalidDigit => "invalid digit found in string"
  | .tooLarge => "number too large to fit in target type"

end NumeralFault

/-- The value of a decimal digit. -/
def digitOf? (c : Char) : Option Nat :=
  if '0' ≤ c ∧ c ≤ '9' then some (c.toNat - '0'.toNat) else none

/-- Reads digits behind those whose value is `n`. The first fault counts. -/
def readDigits (bound n : Nat) : List Char → Except NumeralFault Nat
  | [] => .ok n
  | c :: rest =>
    match digitOf? c with
    | none => .error .invalidDigit
    | some d => if n * 10 + d < bound then readDigits bound (n * 10 + d) rest else .error .tooLarge

/-- Reads a natural number below a bound. -/
def readNumeral (bound : Nat) : List Char → Except NumeralFault Nat
  | [] => .error .empty
  | ['+'] => .error .invalidDigit
  | '+' :: digits => readDigits bound 0 digits
  | digits => readDigits bound 0 digits

end Bytewalk.Text
