import Bytewalk.Code.Opcode
import Bytewalk.Symbol
import Bytewalk.Value.Basic

/-!
# Program trees

Programs as trees, before they are laid out as bytes.
-/

namespace Bytewalk

/-- An expression. -/
inductive Expr where
  /-- A literal. -/
  | literal (value : Value)
  /-- A name. -/
  | variable (symbol : Symbol)
  /-- A unary operator and its operand. -/
  | unary (op : UnaryOp) (operand : Expr)
  /-- A binary operator between its operands. -/
  | binary (op : BinaryOp) (left right : Expr)
  /-- An expression in parentheses. -/
  | group (inner : Expr)
  /-- A call for its value. -/
  | call (callee : Symbol) (args : List Expr)
  /-- An expression evaluated in the module that another one yields. -/
  | accessor (module inner : Expr)

/-- A statement. -/
inductive Stmt where
  /-- Prints an expression. -/
  | print (value : Expr)
  /-- Chooses by a condition. -/
  | branch (condition : Expr) (positive : Stmt) (negative : Option Stmt)
  /-- Statements in a scope of their own. -/
  | block (body : List Stmt)
  /-- Declares a variable or a constant. -/
  | declare (constant : Bool) (symbol : Symbol) (initial : Option Expr)
  /-- Assigns to a variable. -/
  | assign (symbol : Symbol) (value : Expr)
  /-- Repeats a body while a condition holds. -/
  | loop (initial : Option Stmt) (condition : Expr) (body : Stmt) (step : Option Stmt)
  /-- Leaves the innermost loop. -/
  | breakLoop
  /-- Declares a function. -/
  | function (symbol : Symbol) (params : List Symbol) (body : Stmt)
  /-- Calls a function for its effect. -/
  | call (callee : Symbol) (args : List Expr)
  /-- Leaves a function with a value. -/
  | returnValue (value : Option Expr)
  /-- Declares a class. -/
  | classDecl (symbol : Symbol) (fields methods : List Stmt)
  /-- Declares a module. -/
  | module (symbol : Symbol) (fields methods : List Stmt)
  /-- Binds the host function named by a symbol, under another symbol if one is given. -/
  | importHost (symbol : Symbol) (target : Option Symbol)

end Bytewalk
