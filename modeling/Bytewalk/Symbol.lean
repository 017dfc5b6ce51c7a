/-!
# Symbols

Programs refer to names by number. What a number is called is known to the name table alone.
-/

namespace Bytewalk

/-- The number of a name. -/
structure Symbol where
  /-- The number, as programs hold it. -/
  id : Int32
  deriving DecidableEq, Inhabited

namespace Symbol

/-- How a symbol without a name is written. -/
def display (s : Symbol) : String :=
  "#" ++ toString s.id.toInt

/-- How a symbol is written for inspection. -/
def inspect (s : Symbol) : String :=
  "SymbolId(" ++ toString s.id.toInt ++ ")"

end Symbol

end Bytewalk
