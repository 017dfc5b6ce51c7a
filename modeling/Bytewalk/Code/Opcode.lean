/-!
# Opcodes

The bytes that begin statements, expressions and literals, and those that name operators.
-/

namespace Bytewalk

/-- What a statement does, as its first byte says. -/
inductive StatementOp where
  /-- Prints a value. -/
  | print
  /-- Chooses between two statements. -/
  | branch
  /-- Executes statements in a scope of their own. -/
  | block
  /-- Declares a variable or a constant. -/
  | declare
  /-- Assigns to a variable. -/
  | assign
  /-- Repeats a statement while a condition holds. -/
  | loop
  /-- Leaves the innermost loop. -/
  | breakLoop
  /-- Declares a function. -/
  | function
  /-- Calls a function for its effect. -/
  | call
  /-- Leaves a function with a value. -/
  | returnValue
  /-- Declares a class. -/
  | classDecl
  /-- Declares a module. -/
  | module
  /-- Binds a host function. -/
  | importHost
  /-- Has a layout but no meaning. -/
  | reserved
  deriving DecidableEq

namespace StatementOp

/-- The byte of the statement. -/
def byte : StatementOp → UInt8
  | .print => 0x01
  | .branch => 0x02
  | .block => 0x03
  | .declare => 0x04
  | .assign => 0x05
  | .loop => 0x06
  | .breakLoop => 0x07
  | .function => 0x08
  | .call => 0x09
  | .returnValue => 0x0A
  | .classDecl => 0x0B
  | .module => 0x0C
  | .importHost => 0x0D
  | .reserved => 0x0E

/-- The statement that a byte begins. -/
def ofByte? : UInt8 → Option StatementOp
  | 0x01 => some .print
  | 0x02 => some .branch
  | 0x03 => some .block
  | 0x04 => some .declare
  | 0x05 => some .assign
  | 0x06 => some .loop
  | 0x07 => some .breakLoop
  | 0x08 => some .function
  | 0x09 => some .call
  | 0x0A => some .returnValue
  | 0x0B => some .classDecl
  | 0x0C => some .module
  | 0x0D => some .importHost
  | 0x0E => some .reserved
  | _ => none

/-- A statement is found again by its byte. -/
@[simp]
theorem ofByte?_byte (op : StatementOp) : ofByte? op.byte = some op := by
  cases op <;> rfl

/-- A statement has the byte by which it is found. -/
theorem byte_of_ofByte? {b : UInt8} {op : StatementOp} (h : ofByte? b = some op) : op.byte = b := by
  unfold ofByte? at h
  split at h <;> cases h <;> rfl

end StatementOp

/-- What an expression computes, as its first byte says. -/
inductive ExpressionOp where
  /-- A unary operator. -/
  | unary
  /-- A binary operator. -/
  | binary
  /-- Parentheses. -/
  | group
  /-- A literal. -/
  | literal
  /-- A name. -/
  | variable
  /-- A call for its value. -/
  | call
  /-- A member of a module, evaluated in the module. -/
  | accessor
  deriving DecidableEq

namespace ExpressionOp

/-- The byte of the expression. -/
def byte : ExpressionOp → UInt8
  | .unary => 0x01
  | .binary => 0x02
  | .group => 0x03
  | .literal => 0x04
  | .variable => 0x05
  | .call => 0x06
  | .accessor => 0x07

/-- The expression that a byte begins. -/
def ofByte? : UInt8 → Option ExpressionOp
  | 0x01 => some .unary
  | 0x02 => some .binary
  | 0x03 => some .group
  | 0x04 => some .literal
  | 0x05 => some .variable
  | 0x06 => some .call
  | 0x07 => some .accessor
  | _ => none

/-- An expression is found again by its byte. -/
@[simp]
theorem ofByte?_byte (op : ExpressionOp) : ofByte? op.byte = some op := by
  cases op <;> rfl

/-- An expression has the byte by which it is found. -/
theorem byte_of_ofByte? {b : UInt8} {op : ExpressionOp} (h : ofByte? b = some op) : op.byte = b := by
  unfold ofByte? at h
  split at h <;> cases h <;> rfl

end ExpressionOp

/-- The type of a literal. -/
inductive LiteralTag where
  /-- Null, without a payload. -/
  | null
  /-- A truth value in one byte. -/
  | bool
  /-- An integer in four bytes. -/
  | int
  /-- A binary64 number in eight bytes. -/
  | float
  /-- A text behind its length in one byte. -/
  | string
  deriving DecidableEq

namespace LiteralTag

/-- The byte of the tag. -/
def byte : LiteralTag → UInt8
  | .null => 0x00
  | .bool => 0x01
  | .int => 0x02
  | .float => 0x03
  | .string => 0x04

/-- The tag of a byte. -/
def ofByte? : UInt8 → Option LiteralTag
  | 0x00 => some .null
  | 0x01 => some .bool
  | 0x02 => some .int
  | 0x03 => some .float
  | 0x04 => some .string
  | _ => none

/-- A tag is found again by its byte. -/
@[simp]
theorem ofByte?_byte (tag : LiteralTag) : ofByte? tag.byte = some tag := by
  cases tag <;> rfl

/-- A tag has the byte by which it is found. -/
theorem byte_of_ofByte? {b : UInt8} {tag : LiteralTag} (h : ofByte? b = some tag) : tag.byte = b := by
  unfold ofByte? at h
  split at h <;> cases h <;> rfl

end LiteralTag

/-- A unary operator. -/
inductive UnaryOp where
  /-- Inversion. -/
  | not
  /-- Change of sign. -/
  | negate
  deriving DecidableEq

namespace UnaryOp

/-- The byte of the operator. -/
def byte : UnaryOp → UInt8
  | .not => 0x01
  | .negate => 0x02

/-- The operator of a byte. -/
def ofByte? : UInt8 → Option UnaryOp
  | 0x01 => some .not
  | 0x02 => some .negate
  | _ => none

/-- How the operator is written. -/
def spelling : UnaryOp → String
  | .not => "!"
  | .negate => "-"

/-- An operator is found again by its byte. -/
@[simp]
theorem ofByte?_byte (op : UnaryOp) : ofByte? op.byte = some op := by
  cases op <;> rfl

/-- An operator has the byte by which it is found. -/
theorem byte_of_ofByte? {b : UInt8} {op : UnaryOp} (h : ofByte? b = some op) : op.byte = b := by
  unfold ofByte? at h
  split at h <;> cases h <;> rfl

end UnaryOp

/-- A binary operator. -/
inductive BinaryOp where
  /-- Addition. -/
  | add
  /-- Subtraction. -/
  | subtract
  /-- Multiplication. -/
  | multiply
  /-- Division. -/
  | divide
  /-- Equality. -/
  | equal
  /-- Inequality. -/
  | notEqual
  /-- Strictly below. -/
  | less
  /-- Not above. -/
  | lessEqual
  /-- Strictly above. -/
  | greater
  /-- Not below. -/
  | greaterEqual
  /-- Asks a module on the left and yields the right operand. -/
  | member
  deriving DecidableEq

namespace BinaryOp

/-- The byte of the operator. -/
def byte : BinaryOp → UInt8
  | .add => 0x01
  | .subtract => 0x02
  | .multiply => 0x03
  | .divide => 0x04
  | .equal => 0x05
  | .notEqual => 0x06
  | .less => 0x07
  | .lessEqual => 0x08
  | .greater => 0x09
  | .greaterEqual => 0x0A
  | .member => 0x0B

/-- The operator of a byte. -/
def ofByte? : UInt8 → Option BinaryOp
  | 0x01 => some .add
  | 0x02 => some .subtract
  | 0x03 => some .multiply
  | 0x04 => some .divide
  | 0x05 => some .equal
  | 0x06 => some .notEqual
  | 0x07 => some .less
  | 0x08 => some .lessEqual
  | 0x09 => some .greater
  | 0x0A => some .greaterEqual
  | 0x0B => some .member
  | _ => none

/-- How the operator is written. -/
def spelling : BinaryOp → String
  | .add => "+"
  | .subtract => "-"
  | .multiply => "*"
  | .divide => "/"
  | .equal => "=="
  | .notEqual => "!="
  | .less => "<"
  | .lessEqual => "<="
  | .greater => ">"
  | .greaterEqual => ">="
  | .member => "."

/-- An operator is found again by its byte. -/
@[simp]
theorem ofByte?_byte (op : BinaryOp) : ofByte? op.byte = some op := by
  cases op <;> rfl

/-- An operator has the byte by which it is found. -/
theorem byte_of_ofByte? {b : UInt8} {op : BinaryOp} (h : ofByte? b = some op) : op.byte = b := by
  unfold ofByte? at h
  split at h <;> cases h <;> rfl

end BinaryOp

end Bytewalk
