import Bytewalk.Number.Shortest

/-!
# Styles of number text

A binary64 number is written with its shortest digits, either positionally or with a power of
ten. A style says which exponents are written positionally and how a whole number ends. The two
styles of this library are `plain`, for what a program prints, and `exact`, for inspection.
-/

namespace Bytewalk

/-- How a binary64 number is written. -/
structure NumberStyle where
  /-- The least and the greatest power of ten of the leading digit that is written positionally;
  without them every number is. -/
  positional : Option (Int × Int)
  /-- What a whole number ends in when it is written positionally. -/
  wholeEnding : String

namespace NumberStyle

/-- Every number positionally, whole numbers without a point. -/
def plain : NumberStyle :=
  { positional := none, wholeEnding := "" }

/-- Positional from `10 ^ -4` to below `10 ^ 16`, where a whole number ends in `.0`. -/
def exact : NumberStyle :=
  { positional := some (-4, 15), wholeEnding := ".0" }

/-- Whether a leading digit that counts `10 ^ power` is written positionally. -/
def isPositional (style : NumberStyle) (power : Int) : Bool :=
  match style.positional with
  | none => true
  | some (least, greatest) => least ≤ power && power ≤ greatest

/-- Digits around a point that stands before `place` of them. -/
def pointed (style : NumberStyle) (digits : List Char) (place : Int) : String :=
  if place ≤ 0 then
    "0." ++ String.ofList (List.replicate (-place).toNat '0' ++ digits)
  else if digits.length ≤ place.toNat then
    String.ofList (digits ++ List.replicate (place.toNat - digits.length) '0') ++ style.wholeEnding
  else
    String.ofList (digits.take place.toNat) ++ "." ++ String.ofList (digits.drop place.toNat)

/-- One digit before the point and a power of ten behind. -/
def scientific (digits : List Char) (power : Int) : String :=
  let rest := digits.drop 1
  String.ofList (digits.take 1)
    ++ (if rest.isEmpty then "" else "." ++ String.ofList rest)
    ++ "e" ++ toString power

/-- A positive decimal number in the style. -/
def writeDecimal (style : NumberStyle) (d : Decimal) : String :=
  let digits := Nat.toDigits 10 d.digits
  let place := d.exponent + digits.length
  if style.isPositional (place - 1) then style.pointed digits place
  else scientific digits (place - 1)

/-- The magnitude of a number in the style. -/
def writeMagnitude (style : NumberStyle) (x : Binary64) : String :=
  if !x.isFinite then "inf"
  else if x.isZero then "0" ++ style.wholeEnding
  else style.writeDecimal (Shortest.ofBinary64 x)

/-- The number in the style; a zero keeps its sign. -/
def write (style : NumberStyle) (x : Binary64) : String :=
  if x.isNaN then "NaN"
  else (if x.isNegative then "-" else "") ++ style.writeMagnitude x

end NumberStyle

end Bytewalk
