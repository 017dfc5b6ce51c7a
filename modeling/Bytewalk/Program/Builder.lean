import Bytewalk.Code.Encoding
import Bytewalk.Program.Basic

/-!
# Builders

Assembling an image from statements. A builder gives every name a symbol at its first use. It
never gives a symbol whose lowest byte is zero, since such a symbol cannot be told from the
zero byte that stands for a missing alias.
-/

namespace Bytewalk

/-- Statements and names on their way to an image. -/
structure Builder where
  /-- The number that the next new name is offered. -/
  next : Int32 := 1
  /-- The names in the order of their first use. -/
  names : List (String × Symbol) := []
  /-- The statements in order. -/
  statements : List Stmt := []

namespace Builder

/-- The builder of an empty program. -/
def empty : Builder := {}

/-- The first number from `n` on whose lowest byte is not zero. -/
def offer (n : Int32) : Int32 :=
  if n.toUInt32.toNat % 256 = 0 then n + 1 else n

/-- The symbol of a name, which is a new one at its first use. -/
def symbol (builder : Builder) (name : String) : Symbol × Builder :=
  match builder.names.lookup name with
  | some s => (s, builder)
  | none =>
    let id := offer builder.next
    -- Only a name that is new takes a number.
    (⟨id⟩, { builder with next := id + 1, names := builder.names ++ [(name, ⟨id⟩)] })

/-- Adds a statement at the end. -/
def push (builder : Builder) (statement : Stmt) : Builder :=
  { builder with statements := builder.statements ++ [statement] }

/-- Adds statements at the end. -/
def extend (builder : Builder) (statements : List Stmt) : Builder :=
  { builder with statements := builder.statements ++ statements }

/-- The bytes of the statements. -/
def code (builder : Builder) : List UInt8 :=
  Stmt.encodeAll builder.statements

/-- The bytes of the name table. -/
def nameRecords (builder : Builder) : List UInt8 :=
  builder.names.flatMap fun (name, s) => NameTable.encodeRecord name s

/-- The image: where the code ends, the code, and the name table. -/
def build (builder : Builder) : Image :=
  let code := builder.code
  (Word.ofCount (codeStart + code.length) ++ code ++ builder.nameRecords).toArray

/-- The program of the image. -/
def program (builder : Builder) : Except Error Program :=
  Program.load builder.build

end Builder

end Bytewalk
