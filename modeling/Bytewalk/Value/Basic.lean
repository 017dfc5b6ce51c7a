import Bytewalk.Number.Style
import Bytewalk.Text.Quoted

/-!
# Values

What expressions compute and variables hold: null, truth values, wrapping integers of 32 bits,
binary64 numbers and texts. A value has two written forms, one for printing and one for inspection.
-/

namespace Bytewalk

/-- The types of values. -/
inductive ValueType where
  /-- The type of null. -/
  | null
  /-- Truth values. -/
  | bool
  /-- Integers of 32 bits. -/
  | int
  /-- Binary64 numbers. -/
  | float
  /-- Texts. -/
  | string
  deriving DecidableEq, Inhabited

namespace ValueType

/-- The name of the type. -/
def name : ValueType → String
  | .null => "null"
  | .bool => "bool"
  | .int => "int"
  | .float => "float"
  | .string => "string"

/-- Whether values of the type are numbers. -/
def isNumeric : ValueType → Bool
  | .int | .float => true
  | _ => false

end ValueType

/-- A value. -/
inductive Value where
  /-- The absent value. -/
  | null
  /-- A truth value. -/
  | bool (b : Bool)
  /-- An integer of 32 bits. -/
  | int (n : Int32)
  /-- A binary64 number. -/
  | float (x : Binary64)
  /-- A text. -/
  | text (s : String)
  deriving DecidableEq, Inhabited

namespace Value

/-- The type of a value. -/
def type : Value → ValueType
  | .null => .null
  | .bool _ => .bool
  | .int _ => .int
  | .float _ => .float
  | .text _ => .string

/-- Whether the value is null. -/
def isNull : Value → Bool
  | .null => true
  | _ => false

/-- Whether the value is a number. -/
def isNumeric (v : Value) : Bool :=
  v.type.isNumeric

/-- The truth value, if it is one. -/
def bool? : Value → Option Bool
  | .bool b => some b
  | _ => none

/-- The integer, if it is one. -/
def int? : Value → Option Int32
  | .int n => some n
  | _ => none

/-- The binary64 number, if it is one. -/
def float? : Value → Option Binary64
  | .float x => some x
  | _ => none

/-- The number widened to binary64, if the value is a number. -/
def number? : Value → Option Binary64
  | .int n => some (Binary64.ofInt32 n)
  | .float x => some x
  | _ => none

/-- The text, if it is one. -/
def text? : Value → Option String
  | .text s => some s
  | _ => none

/-- A value is a number exactly when it can be widened. -/
theorem isSome_number? (v : Value) : v.number?.isSome = v.isNumeric := by
  cases v <;> rfl

/-! ## Written forms -/

/-- The written form of a value whose numbers and texts are written as given. -/
private def writeWith (float : Binary64 → String) (text : String → String) : Value → String
  | .null => "null"
  | .bool b => if b then "true" else "false"
  | .int n => toString n.toInt
  | .float x => float x
  | .text s => text s

/-- The form in which a value is printed. -/
def display : Value → String :=
  writeWith NumberStyle.plain.write id

/-- The form in which a value is inspected: numbers keep their type and texts are quoted. -/
def inspect : Value → String :=
  writeWith NumberStyle.exact.write Text.quote

/-! ## Sameness -/

/-- Whether two values have the same type and the same content, numbers compared as their format
has it: no value is the same as a number that is not a number, and both zeros are the same. -/
def same : Value → Value → Bool
  | .float x, .float y => x.eq y
  | a, b => a = b

end Value

end Bytewalk
