import Bytewalk.Text.PrintTable
import Bytewalk.Text.Radix

/-!
# Quoted texts

A text between double quotes in which every character can be read: quotes, backslashes and the
common controls have escapes of two characters, and all that has no glyph of its own is written
by its code.
-/

namespace Bytewalk.Text

/-- The escape that names a character by its code. -/
def codeEscape (c : Char) : String :=
  "\\u\x7b" ++ hexLower c.toNat ++ "\x7d"

/-- Whether the character has a glyph that stands on its own. -/
def isPrintable (c : Char) : Bool :=
  !memberOf PrintTable.graphemeExtend c && !memberOf PrintTable.unprintable c

/-- One character inside a quoted text. -/
def quoteChar (c : Char) : String :=
  if c = '\x00' then "\\0"
  else if c = '\t' then "\\t"
  else if c = '\r' then "\\r"
  else if c = '\n' then "\\n"
  else if c = '"' then "\\\""
  else if c = '\\' then "\\\\"
  else if isPrintable c then c.toString
  else codeEscape c

/-- The text between double quotes. -/
def quote (text : String) : String :=
  "\"" ++ String.join (text.toList.map quoteChar) ++ "\""

end Bytewalk.Text
