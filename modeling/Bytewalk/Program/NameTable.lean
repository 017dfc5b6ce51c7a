import Bytewalk.Code.Decoder

/-!
# Name tables

What symbols are called. A table stands at the end of an image as records of a name and a symbol,
and no symbol is named twice. A record that is cut off is completed with zeros, as far as its name
fits.
-/

namespace Bytewalk

/-- The names of symbols, in the order in which they were given. -/
structure NameTable where
  /-- Symbols and their names. -/
  entries : List (Symbol × String) := []
  deriving DecidableEq, Inhabited

namespace NameTable

/-- The table without names. -/
def empty : NameTable := {}

/-- The name of a symbol, if it has one. -/
def get? (names : NameTable) (s : Symbol) : Option String :=
  names.entries.lookup s

/-- The name of a symbol, or its number. -/
def display (names : NameTable) (s : Symbol) : String :=
  (names.get? s).getD s.display

/-- How many symbols have names. -/
def size (names : NameTable) : Nat :=
  names.entries.length

/-- Names a symbol that has no name yet. -/
def insert (names : NameTable) (s : Symbol) (name : String) : Except Error NameTable :=
  match names.get? s with
  | some old =>
    .error (.of (.malformed
      ("symbol " ++ s.display ++ " named twice (\x60" ++ old ++ "\x60 and \x60" ++ name ++
        "\x60)")))
  | none => .ok { entries := names.entries ++ [(s, name)] }

/-! ## Reading -/

/-- A text is read forwards. -/
private theorem lt_of_longText {image : Image} {s : String} {p q : Nat}
    (h : Decoder.longText image p = .ok s q) : p < q := by
  rw [Decoder.longText_eq, EStateM.bind] at h
  cases hbody : Decoder.textBody image p (image.wordAt p 4) (p + 4) with
  | ok bytes r =>
    rw [hbody] at h
    cases h
    have := Decoder.eq_add_of_textBody hbody
    omega
  | error e r =>
    rw [hbody] at h
    cases h

/-- Adds the records from an offset to the end of the image. -/
def readFrom (image : Image) (names : NameTable) (p : Nat) : Except Error NameTable :=
  if p < image.size then
    match _h : Decoder.longText image p with
    | .error e _ => .error e
    | .ok name q =>
      match names.insert ⟨image.int32At q⟩ name with
      | .error e => .error e
      | .ok names => readFrom image names (q + 4)
  else
    .ok names
termination_by image.size - p
decreasing_by
  have := lt_of_longText _h
  omega

/-- The table from an offset to the end of the image. -/
def load (image : Image) (offset : Nat) : Except Error NameTable :=
  readFrom image empty offset

/-- The bytes of one record. -/
def encodeRecord (name : String) (s : Symbol) : List UInt8 :=
  let bytes := Text.Latin.encode name
  Word.ofCount bytes.length ++ bytes ++ Word.ofSymbol s

end NameTable

end Bytewalk
