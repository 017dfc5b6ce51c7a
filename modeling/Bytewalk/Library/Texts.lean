import Bytewalk.Library.Math
import Bytewalk.Text.Casing

/-!
# Host functions on texts

Host functions on texts, and the printed form of any value as a text.
-/

namespace Bytewalk.Library

/-- The text that is the first argument. -/
def text (function : String) (args : List Value) : Except Error String :=
  match args.head? with
  | some (.text s) => .ok s
  | arg => .error (.of (.invalidArgument function ("expected a string, got " ++ describe arg)))

/-- The number of characters, as far as an integer can tell it. -/
def len (args : List Value) : Except Error Value := do
  let s ← text "len" args
  return .int (Int32.ofNat (Nat.min s.length 2147483647))

/-- The text in capital letters. -/
def upper (args : List Value) : Except Error Value := do
  return .text (Text.upper (← text "upper" args))

/-- The text in small letters. -/
def lower (args : List Value) : Except Error Value := do
  return .text (Text.lower (← text "lower" args))

/-- The printed form of the first argument, if there is one. -/
def str (args : List Value) : Except Error Value :=
  .ok (.text ((args.head?.map Value.display).getD ""))

end Bytewalk.Library
