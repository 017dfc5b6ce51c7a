import Bytewalk.Code.Opcode

/-!
# Layouts

What follows the first byte of a statement or an expression. A layout is a list of fields; it is
all that is needed to find the end of a program part without executing it.
-/

namespace Bytewalk

/-- The two kinds of program parts that begin with a byte of their own. -/
inductive Node where
  /-- A statement. -/
  | statement
  /-- An expression. -/
  | expression
  deriving DecidableEq

namespace Node

/-- What the part is called. -/
def name : Node → String
  | .statement => "statement"
  | .expression => "expression"

end Node

/-- A field of a layout. -/
inductive Field where
  /-- So many bytes of any content. -/
  | raw (width : Nat)
  /-- So many parts of one kind, one behind the other. -/
  | nodes (kind : Node) (number : Nat)
  /-- A part, or a zero byte in its place. -/
  | optional (kind : Node)
  /-- A count and so many parts. -/
  | counted (kind : Node)
  /-- A symbol, or a zero byte in its place. -/
  | optionalSymbol
  /-- A count and so many symbols. -/
  | symbols
  /-- A literal. -/
  | literal
  deriving DecidableEq

namespace Field

/-- One statement. -/
abbrev statement : Field := .nodes .statement 1

/-- One expression. -/
abbrev expression : Field := .nodes .expression 1

/-- One symbol. -/
abbrev symbol : Field := .raw 4

end Field

/-- The fields of a statement behind its first byte. -/
def StatementOp.layout : StatementOp → List Field
  | .print => [.expression]
  | .branch => [.expression, .statement, .optional .statement]
  | .block => [.counted .statement]
  | .declare => [.raw 1, .symbol, .optional .expression]
  | .assign => [.symbol, .expression]
  | .loop => [.optional .statement, .expression, .statement, .optional .statement]
  | .breakLoop => []
  | .function => [.symbol, .symbols, .statement]
  | .call => [.symbol, .counted .expression]
  | .returnValue => [.optional .expression]
  | .classDecl | .module => [.symbol, .counted .statement, .counted .statement]
  | .importHost => [.symbol, .optionalSymbol]
  | .reserved => [.raw 12, .statement]

/-- The fields of an expression behind its first byte. -/
def ExpressionOp.layout : ExpressionOp → List Field
  | .unary => [.raw 1, .expression]
  | .binary => [.raw 1, .expression, .expression]
  | .group => [.expression]
  | .literal => [.literal]
  | .variable => [.symbol]
  | .call => [.symbol, .counted .expression]
  | .accessor => [.expression, .expression]

/-- The fields behind a first byte, if the byte begins a part of the kind. -/
def Node.layout? (kind : Node) (byte : UInt8) : Option (List Field) :=
  match kind with
  | .statement => (StatementOp.ofByte? byte).map StatementOp.layout
  | .expression => (ExpressionOp.ofByte? byte).map ExpressionOp.layout

/-- The zero byte begins nothing. -/
theorem Node.layout?_zero (kind : Node) : kind.layout? 0 = none := by
  cases kind <;> rfl

end Bytewalk
