import Bytewalk.Number.Binary64

/-!
# Shortest decimal digits

The fewest decimal digits that identify a binary64 number. Every number owns an interval of reals
that round to it. Among the decimal grids `10 ^ e`, from the coarsest on, the first with a point
in the interval gives the digits; of two such points the nearer is taken, and of two equally near
the greater.
-/

namespace Bytewalk

/-- The decimal number `digits * 10 ^ exponent`. -/
structure Decimal where
  /-- The digits as one natural number. -/
  digits : Nat
  /-- The power of ten that the last digit counts. -/
  exponent : Int
  deriving DecidableEq

namespace Shortest

/-- A positive number `significand * 2 ^ exponent` together with the shape of its interval. -/
structure Magnitude where
  /-- The integral significand. -/
  significand : Nat
  /-- The power of two that it counts. -/
  exponent : Int
  /-- Whether the neighbour below is only half as far away as the one above. -/
  narrowBelow : Bool

/-- The magnitude of a finite nonzero number. -/
def Magnitude.ofBinary64 (x : Binary64) : Magnitude :=
  if x.exponentField = 0 then
    { significand := x.fractionField, exponent := -1074, narrowBelow := false }
  else
    { significand := x.fractionField + 4503599627370496
      exponent := (x.exponentField : Int) - 1075
      narrowBelow := x.fractionField = 0 && 1 < x.exponentField }

/-- A number, the ends of its interval and their common denominator, all scaled alike. -/
structure Window where
  /-- The numerator of the lower end. -/
  low : Nat
  /-- The numerator of the number itself. -/
  value : Nat
  /-- The numerator of the upper end. -/
  high : Nat
  /-- The common denominator. -/
  unit : Nat
  /-- Whether the ends belong to the interval. -/
  closed : Bool

/-- The interval of reals that round to the magnitude: half the distance to each neighbour, ends
included when the significand is even. -/
def Magnitude.window (m : Magnitude) : Window :=
  -- Counted in quarters of the last place, half the distance to a neighbour is two, and one where
  -- the neighbour below is nearer.
  let scale := Nat.pow 2 m.exponent.toNat
  { low := (4 * m.significand - (if m.narrowBelow then 1 else 2)) * scale
    value := 4 * m.significand * scale
    high := (4 * m.significand + 2) * scale
    unit := 4 * Nat.pow 2 (-m.exponent).toNat
    closed := m.significand % 2 = 0 }

namespace Window

/-- The window measured in steps of `10 ^ step`. -/
def onGrid (w : Window) (step : Int) : Window :=
  let up := Nat.pow 10 (-step).toNat
  { w with
    low := w.low * up
    value := w.value * up
    high := w.high * up
    unit := w.unit * Nat.pow 10 step.toNat }

/-- Whether the interval contains the whole number `n`. -/
def contains (w : Window) (n : Nat) : Bool :=
  if w.closed then
    w.low ≤ n * w.unit && n * w.unit ≤ w.high
  else
    w.low < n * w.unit && n * w.unit < w.high

/-- The whole number in the interval that is nearest to the value, the greater of two equally
near ones. -/
def nearest? (w : Window) : Option Nat :=
  let below := w.value / w.unit
  let above := below + 1
  if w.value % w.unit = 0 then
    -- The value itself is on the grid.
    some below
  else if w.contains below then
    if w.contains above && (2 * below + 1) * w.unit ≤ 2 * w.value then some above else some below
  else if w.contains above then
    some above
  else
    none

/-- The number of decimal digits of a natural number. -/
def decimalLength (n : Nat) : Nat :=
  (Nat.toDigits 10 n).length

/-- The least `p` such that the value is below `10 ^ p`. -/
def leadingPlace (w : Window) : Int :=
  if w.unit ≤ w.value then
    decimalLength (w.value / w.unit)
  else
    1 - (decimalLength ((w.unit - 1) / w.value) : Int)

/-- The digits of the value on the grid that holds `count` of them, when that grid has a point in
the interval. -/
def digits? (w : Window) (count : Nat) : Option Decimal :=
  let step := w.leadingPlace - count
  (w.onGrid step).nearest?.map ({ digits := ·, exponent := step })

end Window

/-- Drops the zeros at the end of the digits. -/
def stripZeros (d : Decimal) : Decimal :=
  let digits := (Nat.toDigits 10 d.digits)
  let kept := (digits.reverse.dropWhile (· = '0')).reverse
  { digits := d.digits / Nat.pow 10 (digits.length - kept.length)
    exponent := d.exponent + (digits.length - kept.length : Nat) }

/-- The shortest digits of a finite nonzero number, its sign apart. Seventeen always suffice. -/
def ofBinary64 (x : Binary64) : Decimal :=
  let window := (Magnitude.ofBinary64 x).window
  stripZeros (((List.range 17).findSome? fun n => window.digits? (n + 1)).getD ⟨0, 0⟩)

end Shortest

end Bytewalk
