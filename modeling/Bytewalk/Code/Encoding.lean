import Bytewalk.Code.Image
import Bytewalk.Code.Tree
import Bytewalk.Text.Latin

/-!
# Encoding

The bytes of program trees. A part begins with its opcode, an optional part that is not there
leaves a zero byte, and a list comes behind its count. No opcode is zero, so that a zero byte
cannot be mistaken for the beginning of a part.
-/

namespace Bytewalk

/-- The most bytes that a text literal holds. -/
def maxTextLiteral : Nat := 255

/-- The bytes of a literal: its tag and its payload. A text is written with one byte per character
and is cut after its 255th. -/
def Value.encode : Value → List UInt8
  | .null => [LiteralTag.null.byte]
  | .bool b => [LiteralTag.bool.byte, if b then 1 else 0]
  | .int n => LiteralTag.int.byte :: Word.ofInt32 n
  | .float x => LiteralTag.float.byte :: Word.ofBinary64 x
  | .text s =>
    let bytes := (Text.Latin.encode s).take maxTextLiteral
    LiteralTag.string.byte :: UInt8.ofNat bytes.length :: bytes

namespace Expr

mutual

/-- The bytes of an expression. -/
def encode : Expr → List UInt8
  | .literal value => ExpressionOp.literal.byte :: value.encode
  | .variable symbol => ExpressionOp.variable.byte :: Word.ofSymbol symbol
  | .unary op operand => ExpressionOp.unary.byte :: op.byte :: operand.encode
  | .binary op left right =>
    ExpressionOp.binary.byte :: op.byte :: (left.encode ++ right.encode)
  | .group inner => ExpressionOp.group.byte :: inner.encode
  | .call callee args =>
    ExpressionOp.call.byte :: (Word.ofSymbol callee ++ Word.ofCount args.length ++ encodeAll args)
  | .accessor module inner => ExpressionOp.accessor.byte :: (module.encode ++ inner.encode)

/-- The bytes of expressions one behind the other. -/
def encodeAll : List Expr → List UInt8
  | [] => []
  | e :: rest => e.encode ++ encodeAll rest

end

/-- The bytes of an expression, or the zero byte in its place. -/
def encodeOptional : Option Expr → List UInt8
  | none => [0]
  | some e => e.encode

end Expr

namespace Stmt

mutual

/-- The bytes of a statement. -/
def encode : Stmt → List UInt8
  | .print value => StatementOp.print.byte :: value.encode
  | .branch condition positive negative =>
    StatementOp.branch.byte :: (condition.encode ++ positive.encode ++ encodeOptional negative)
  | .block body => StatementOp.block.byte :: (Word.ofCount body.length ++ encodeAll body)
  | .declare constant symbol initial =>
    StatementOp.declare.byte :: (if constant then 1 else 0) ::
      (Word.ofSymbol symbol ++ Expr.encodeOptional initial)
  | .assign symbol value => StatementOp.assign.byte :: (Word.ofSymbol symbol ++ value.encode)
  | .loop initial condition body step =>
    StatementOp.loop.byte ::
      (encodeOptional initial ++ condition.encode ++ body.encode ++ encodeOptional step)
  | .breakLoop => [StatementOp.breakLoop.byte]
  | .function symbol params body =>
    StatementOp.function.byte ::
      (Word.ofSymbol symbol ++ Word.ofCount params.length ++ params.flatMap Word.ofSymbol
        ++ body.encode)
  | .call callee args =>
    StatementOp.call.byte ::
      (Word.ofSymbol callee ++ Word.ofCount args.length ++ Expr.encodeAll args)
  | .returnValue value => StatementOp.returnValue.byte :: Expr.encodeOptional value
  | .classDecl symbol fields methods =>
    StatementOp.classDecl.byte ::
      (Word.ofSymbol symbol ++ Word.ofCount fields.length ++ encodeAll fields
        ++ Word.ofCount methods.length ++ encodeAll methods)
  | .module symbol fields methods =>
    StatementOp.module.byte ::
      (Word.ofSymbol symbol ++ Word.ofCount fields.length ++ encodeAll fields
        ++ Word.ofCount methods.length ++ encodeAll methods)
  | .importHost symbol target =>
    StatementOp.importHost.byte ::
      (Word.ofSymbol symbol ++ (target.map Word.ofSymbol).getD [0])

/-- The bytes of a statement, or the zero byte in its place. -/
def encodeOptional : Option Stmt → List UInt8
  | none => [0]
  | some s => s.encode

/-- The bytes of statements one behind the other. -/
def encodeAll : List Stmt → List UInt8
  | [] => []
  | s :: rest => s.encode ++ encodeAll rest

end

end Stmt

end Bytewalk
