import Bytewalk.Text.CaseTable

/-!
# Capital and small letters

The full case mappings of Unicode on texts. A mapping may lengthen a text (`ß` becomes `SS`), and
a capital sigma is lowered by its position: `ς` at the end of a word and `σ` elsewhere.
-/

namespace Bytewalk.Text

open CaseTable

/-- The image of a character: its expansion, else its shift, else the character itself. -/
private def mapChar (expansions : List (Nat × List Nat)) (runs : Array Run) (c : Char) :
    List Char :=
  match expansions.lookup c.toNat with
  | some codes => codes.map Char.ofNat
  | none => [((runs.findSome? (·.image? c.toNat)).map Char.ofNat).getD c]

/-- The capital form of one character. -/
def upperChar (c : Char) : List Char :=
  mapChar upperExpansions upperRuns c

/-- The small form of one character on its own. -/
def lowerChar (c : Char) : List Char :=
  mapChar lowerExpansions lowerRuns c

/-- Whether the first character that counts for case has one. -/
def startsCased (chars : List Char) : Bool :=
  match chars.dropWhile (memberOf caseIgnorable) with
  | [] => false
  | c :: _ => memberOf cased c

/-- The capital sigma, whose small form depends on its neighbours. -/
def capitalSigma : Char := 'Σ'

/-- The small form of the characters, given those before them in reverse order. A capital sigma
ends a word when a cased character stands before it and none after it. -/
def lowerChars (before : List Char) : List Char → List Char
  | [] => []
  | c :: rest =>
    let image :=
      if c = capitalSigma then
        -- Characters that are ignored for case do not end a word.
        if startsCased before && !startsCased rest then ['ς'] else ['σ']
      else
        lowerChar c
    image ++ lowerChars (c :: before) rest

/-- The text in capital letters. -/
def upper (text : String) : String :=
  String.ofList (text.toList.flatMap upperChar)

/-- The text in small letters. -/
def lower (text : String) : String :=
  String.ofList (lowerChars [] text.toList)

end Bytewalk.Text
