import Bytewalk.Machine.State
import Bytewalk.Value.Coercion

/-!
# Expressions

How expressions are evaluated. Subexpressions are evaluated by the execution `evaluate`, calls by
the execution `call`; the machine ties both to the definitions of this module. A name yields its
cell, so that it can be told from a computed value; operators read cells only after both operands
have been evaluated.
-/

namespace Bytewalk

open Decoder

/-- What a unary operator does with a value. -/
def UnaryOp.apply : UnaryOp → Value → Except Error Value
  | .not => Value.not
  | .negate => Value.negate

/-- What a binary operator does with two values. Where the left operand has been found to be a
module, asking for a member yields the right one. -/
def BinaryOp.apply : BinaryOp → Value → Value → Except Error Value
  | .add, a, b => a.add b
  | .subtract, a, b => a.subtract b
  | .multiply, a, b => a.multiply b
  | .divide, a, b => a.divide b
  | .equal, a, b => .ok (.bool (a.equals b))
  | .notEqual, a, b => .ok (.bool !a.equals b)
  | .less, a, b => (a.less b).map .bool
  | .lessEqual, a, b => (a.lessEqual b).map .bool
  | .greater, a, b => (a.greater b).map .bool
  | .greaterEqual, a, b => (a.greaterEqual b).map .bool
  | .member, _, b => .ok b

namespace Machine

variable {σ : Type} (m : Setup σ) (evaluate : Exec σ Operand)

/-- Evaluates an expression to a value. -/
def evaluateValue : Exec σ Value := do
  Exec.valueOf (← evaluate)

/-- Evaluates an expression to a value, or to null where a zero byte stands in its place. -/
def evaluateOptional : Exec σ Value := do
  if ← Exec.decode (present m.program.image) then evaluateValue evaluate else return .null

/-- The module that an operand names. -/
def moduleOf (operand : Operand) : Exec σ ModuleInfo := do
  match operand with
  | .value v => Exec.fail (.invalidAccessor v.type.name)
  | .cell id =>
    match ← Exec.read id with
    | .module info => return info
    | other => Exec.fail (.invalidAccessor other.kind)

/-- A unary operator and its operand. -/
def unary : Exec σ Value := do
  let byte ← Exec.decode (byte m.program.image)
  match UnaryOp.ofByte? byte with
  | none => Exec.fail (.unknownOpcode "unary operator" byte)
  | some op => Exec.lift (op.apply (← evaluateValue evaluate))

/-- A binary operator and its operands. -/
def binary : Exec σ Value := do
  let byte ← Exec.decode (byte m.program.image)
  match BinaryOp.ofByte? byte with
  | none => Exec.fail (.unknownOpcode "binary operator" byte)
  | some op =>
    let left ← evaluate
    let right ← evaluate
    -- Both operands are evaluated before the left one is found not to be a module.
    if op = .member then
      let _ ← moduleOf left
    let a ← Exec.valueOf left
    let b ← Exec.valueOf right
    Exec.lift (op.apply a b)

/-- An expression in the scope of a module. -/
def accessor : Exec σ Operand := do
  let info ← moduleOf (← evaluate)
  Exec.inScope info.scope evaluate

/-- The expression at the position. -/
def expression (call : Exec σ Value) : Exec σ Operand := do
  let image := m.program.image
  let byte ← Exec.decode (byte image)
  match ExpressionOp.ofByte? byte with
  | none => Exec.fail (.unknownOpcode "expression" byte)
  | some .unary => return .value (← unary m evaluate)
  | some .binary => return .value (← binary m evaluate)
  | some .group => evaluate
  | some .literal => return .value (← Exec.decode (literal image))
  | some .variable =>
    return .cell (← Exec.resolve m.program.names (← Exec.decode (symbol image)))
  | some .call => return .value (← call)
  | some .accessor => accessor evaluate

end Machine

end Bytewalk
