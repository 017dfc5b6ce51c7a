import Bytewalk.Text.Span

/-!
# Blank characters

The characters with the Unicode property White_Space, and the removal of such characters from the
ends of a text.
-/

namespace Bytewalk.Text

/-- The characters with the property White_Space. -/
def blanks : Array Span := #[
  (0x9, 0xD), (0x20, 0x20), (0x85, 0x85), (0xA0, 0xA0), (0x1680, 0x1680), (0x2000, 0x200A),
  (0x2028, 0x2029), (0x202F, 0x202F), (0x205F, 0x205F), (0x3000, 0x3000)]

/-- Whether the character is blank. -/
def isBlank (c : Char) : Bool :=
  memberOf blanks c

/-- The characters without the blank ones at the end. -/
def dropBlanksEnd (chars : List Char) : List Char :=
  (chars.reverse.dropWhile isBlank).reverse

/-- The characters without the blank ones at either end. -/
def trimChars (chars : List Char) : List Char :=
  dropBlanksEnd (chars.dropWhile isBlank)

/-- The text without the blank characters at its end. -/
def trimEnd (text : String) : String :=
  String.ofList (dropBlanksEnd text.toList)

/-- The text without the blank characters at either end. -/
def trim (text : String) : String :=
  String.ofList (trimChars text.toList)

end Bytewalk.Text
