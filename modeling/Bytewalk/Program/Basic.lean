import Bytewalk.Program.NameTable

/-!
# Programs

A program is an image whose first four bytes say where its code ends and its name table begins.
The code stands between.
-/

namespace Bytewalk

/-- The offset of the first statement. -/
def codeStart : Nat := 4

/-- An image that has been found to have the form of a program. -/
structure Program where
  /-- The whole image. -/
  image : Image
  /-- Where the code ends and the name table begins. -/
  codeEnd : Nat
  /-- The names of the symbols. -/
  names : NameTable

namespace Program

/-- Reads the header and the name table of an image. -/
def load (image : Image) : Except Error Program :=
  if image.size < codeStart then
    .error (.of (.malformed s!"image of {image.size} bytes is shorter than its header"))
  else
    let header := (image.int32At 0).toInt
    if codeStart ≤ header ∧ header ≤ image.size then do
      let names ← NameTable.load image header.toNat
      return { image, codeEnd := header.toNat, names }
    else
      .error (.of (.malformed
        s!"name table offset {header} outside of {codeStart}..={image.size}"))

end Program

end Bytewalk
