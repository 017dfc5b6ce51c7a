/-!
# Numerals in base sixteen

Natural numbers as hexadecimal digits, padded on the left with zeros to a least width.
-/

namespace Bytewalk.Text

/-- The digits padded on the left with zeros to at least `width`. -/
def padZeros (width : Nat) (digits : List Char) : List Char :=
  List.replicate (width - digits.length) '0' ++ digits

/-- The number in small hexadecimal digits. -/
def hexLower (n : Nat) : String :=
  String.ofList (Nat.toDigits 16 n)

/-- The number in capital hexadecimal digits, at least `width` of them. -/
def hexUpper (width n : Nat) : String :=
  String.ofList (padZeros width ((Nat.toDigits 16 n).map Char.toUpper))

end Bytewalk.Text
