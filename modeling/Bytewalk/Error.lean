import Bytewalk.Symbol
import Bytewalk.Text.Blank
import Bytewalk.Text.Radix
import Bytewalk.Value.Basic

/-!
# Errors

Why a run fails, and where. A cause is a reason with the data that its message names. An error is
a cause with the trace that it has gathered on its way out: the offset of the statement that
failed, and the functions that were being called, innermost first.
-/

namespace Bytewalk

/-- The limits that a run can exceed. -/
inductive Limit where
  /-- So many calls may be open at a time. -/
  | callDepth (limit : Nat)
  /-- So many statements may be executed. -/
  | fuel (limit : Nat)
  deriving DecidableEq

namespace Limit

/-- The limit in words. -/
def message : Limit → String
  | .callDepth limit => "max call depth (" ++ toString limit ++ ") exceeded"
  | .fuel limit => "execution fuel (" ++ toString limit ++ " statements) exhausted"

end Limit

/-- Coarse classes of causes. -/
inductive Category where
  /-- A name that is not there, is there already or may not be assigned. -/
  | lookup
  /-- A value of the wrong type. -/
  | typing
  /-- A program that is not well formed. -/
  | format
  /-- A call that cannot be made. -/
  | calling
  /-- A limit that is exceeded. -/
  | limit
  /-- A failure that no program should cause. -/
  | internal
  deriving DecidableEq

/-- Why a run fails. -/
inductive Cause where
  /-- A name has no binding in sight. -/
  | unknownSymbol (name : String)
  /-- A name is bound already in the same scope. -/
  | duplicateSymbol (name : String)
  /-- A constant is assigned to. -/
  | constAssignment (name : String)
  /-- Something other than a variable is assigned to. -/
  | notAssignable (target : String)
  /-- The name table has no name for a symbol that needs one. -/
  | unnamedSymbol (symbol : Symbol)
  /-- A binary operator does not apply to operands of these types. -/
  | invalidOperands (operator : String) (left right : ValueType)
  /-- A unary operator does not apply to an operand of this type. -/
  | invalidOperand (operator : String) (operand : ValueType)
  /-- A value of this type is neither true nor false. -/
  | notTruthable (type : ValueType)
  /-- Members are asked of something other than a module. -/
  | invalidAccessor (target : String)
  /-- A byte does not begin what is read. -/
  | unknownOpcode (construct : String) (byte : UInt8)
  /-- A byte begins something that is set aside and cannot be executed. -/
  | reservedOpcode (byte : UInt8)
  /-- The image does not have the form of a program. -/
  | malformed (detail : String)
  /-- A signal that no loop or call receives. -/
  | strayControlFlow (keyword : String)
  /-- A call has the wrong number of arguments. -/
  | arityMismatch (callee expected : String) (actual : Nat)
  /-- Something that is not a function is called. -/
  | notCallable (target : String)
  /-- No host function goes by the name. -/
  | unregisteredHost (name : String)
  /-- A host function cannot be registered. -/
  | invalidHost (name reason : String)
  /-- A host function refuses an argument. -/
  | invalidArgument (function message : String)
  /-- A limit is exceeded. -/
  | limitExceeded (limit : Limit)
  /-- A failure that no program should cause. -/
  | internal (message : String)
  deriving DecidableEq

namespace Cause

/-- The class of a cause. -/
def category : Cause → Category
  | .unknownSymbol _ | .duplicateSymbol _ | .constAssignment _ | .notAssignable _
  | .unnamedSymbol _ => .lookup
  | .invalidOperands .. | .invalidOperand .. | .notTruthable _ | .invalidAccessor _ => .typing
  | .unknownOpcode .. | .reservedOpcode _ | .malformed _ | .strayControlFlow _ => .format
  | .arityMismatch .. | .notCallable _ | .unregisteredHost _ | .invalidHost ..
  | .invalidArgument .. => .calling
  | .limitExceeded _ => .limit
  | .internal _ => .internal

/-- A text between grave accents. -/
private def ticked (text : String) : String :=
  "\x60" ++ text ++ "\x60"

/-- A byte in base sixteen. -/
private def byteText (byte : UInt8) : String :=
  "0x" ++ Text.hexUpper 2 byte.toNat

/-- The cause in words. -/
def message : Cause → String
  | .unknownSymbol name => "unknown variable: " ++ name
  | .duplicateSymbol name => "duplicate declaration: " ++ name
  | .constAssignment name => "cannot assign to constant " ++ name
  | .notAssignable target => "cannot assign to " ++ target ++ ": not a variable"
  | .unnamedSymbol symbol => "symbol " ++ symbol.display ++ " has no name"
  | .invalidOperands operator left right =>
    "cannot apply " ++ ticked operator ++ " to " ++ left.name ++ " and " ++ right.name
  | .invalidOperand operator operand =>
    "cannot apply unary " ++ ticked operator ++ " to " ++ operand.name
  | .notTruthable type =>
    "attempting to get truthy value of non-truthable type " ++ type.name
  | .invalidAccessor target => "cannot access members of " ++ target ++ ": not a module"
  | .unknownOpcode construct byte => "unknown " ++ construct ++ " opcode " ++ byteText byte
  | .reservedOpcode byte => "reserved opcode " ++ byteText byte ++ " cannot be executed"
  | .malformed detail => "malformed program: " ++ detail
  | .strayControlFlow keyword =>
    ticked keyword ++ " has no enclosing construct to return to"
  | .arityMismatch callee expected actual =>
    callee ++ " expects " ++ expected ++ " argument(s), got " ++ toString actual
  | .notCallable target => target ++ " is not callable"
  | .unregisteredHost name => "no host function registered as " ++ ticked name
  | .invalidHost name reason =>
    "cannot register host function " ++ ticked name ++ ": " ++ reason
  | .invalidArgument function message => function ++ ": " ++ message
  | .limitExceeded limit => "limit exceeded: " ++ limit.message
  | .internal message => "internal error: " ++ message

end Cause

/-- Where an error arose. -/
structure Trace where
  /-- The offset of the innermost statement, once it is known. -/
  offset : Option Nat := none
  /-- The functions that the error has left, innermost first. -/
  frames : List String := []
  deriving DecidableEq

namespace Trace

/-- The trace in words: the offset, then a line for every function. -/
def display (trace : Trace) : String :=
  let place := match trace.offset with
    | some offset => "at offset 0x" ++ Text.hexUpper 4 offset
    | none => ""
  let calls := if trace.frames.isEmpty then "" else
    "\n" ++ String.join (trace.frames.map fun frame => "  in " ++ frame ++ "\n")
  place ++ calls

end Trace

/-- A cause, and where it arose as far as that is known. -/
structure Error where
  /-- Why the run fails. -/
  cause : Cause
  /-- Where it arose. -/
  trace : Option Trace := none
  deriving DecidableEq

namespace Error

/-- The error of a cause that arose nowhere in particular. -/
def of (cause : Cause) : Error :=
  { cause }

/-- The error with its whole trace replaced. -/
def withTrace (e : Error) (trace : Trace) : Error :=
  { e with trace := some trace }

/-- Records the offset of the failing statement; only the first one recorded is kept. -/
def atOffset (e : Error) (offset : Nat) : Error :=
  let trace := e.trace.getD {}
  e.withTrace { trace with offset := some (trace.offset.getD offset) }

/-- Records that the error has left a function. -/
def inFrame (e : Error) (frame : String) : Error :=
  let trace := e.trace.getD {}
  e.withTrace { trace with frames := trace.frames ++ [frame] }

/-- The class of the error. -/
def category (e : Error) : Category :=
  e.cause.category

/-- The error in words, without its trace. -/
def message (e : Error) : String :=
  e.cause.message

/-- The offset of the failing statement, if it is known. -/
def offset (e : Error) : Option Nat :=
  e.trace.bind (·.offset)

/-- The functions that the error has left, innermost first. -/
def frames (e : Error) : List String :=
  (e.trace.map (·.frames)).getD []

/-- A message and, where there is something to say, the trace below it. -/
def report (e : Error) : String :=
  let place := Text.trimEnd ((e.trace.map Trace.display).getD "")
  "RuntimeError: " ++ e.message ++ (if place.isEmpty then "" else "\n" ++ place)

/-! ## How a trace grows -/

/-- The offset of an error is the first one recorded. -/
@[simp]
theorem offset_atOffset (e : Error) (n : Nat) :
    (e.atOffset n).offset = some (e.offset.getD n) := by
  rcases e with ⟨cause, _ | trace⟩ <;> rfl

/-- Recording an offset leaves the functions as they are. -/
@[simp]
theorem frames_atOffset (e : Error) (n : Nat) : (e.atOffset n).frames = e.frames := by
  rcases e with ⟨cause, _ | trace⟩ <;> rfl

/-- Leaving a function adds it behind the others. -/
@[simp]
theorem frames_inFrame (e : Error) (frame : String) :
    (e.inFrame frame).frames = e.frames ++ [frame] := by
  rcases e with ⟨cause, _ | trace⟩ <;> rfl

/-- Leaving a function keeps the offset. -/
@[simp]
theorem offset_inFrame (e : Error) (frame : String) : (e.inFrame frame).offset = e.offset := by
  rcases e with ⟨cause, _ | trace⟩ <;> rfl

/-- Recording an offset keeps the cause. -/
@[simp]
theorem cause_atOffset (e : Error) (n : Nat) : (e.atOffset n).cause = e.cause := rfl

/-- Leaving a function keeps the cause. -/
@[simp]
theorem cause_inFrame (e : Error) (frame : String) : (e.inFrame frame).cause = e.cause := rfl

end Error

end Bytewalk
