import Bytewalk.Code.Tree
import Bytewalk.Machine.State

/-!
# Signals out of statements

Which signals may come out of a statement, as its tree tells without executing it, and which trees
let no signal get lost: the statements of a module raise none, and the body of a function raises
none that leaves a loop.
-/

namespace Bytewalk

/-- What a statement may ask of those around it. -/
inductive Signal where
  /-- To leave the innermost loop. -/
  | leaveLoop
  /-- To leave the function. -/
  | leaveFunction
  deriving DecidableEq

/-- The signal of a flow, unless the next statement is to be executed. -/
def Flow.signal? : Flow → Option Signal
  | .normal => none
  | .breakLoop => some .leaveLoop
  | .returnValue _ => some .leaveFunction

namespace Stmt

mutual

/-- The signal may come out of the statement. A loop receives the signals that leave it, but not
those out of its first statement. -/
def mayRaise (signal : Signal) : Stmt → Bool
  | .branch _ positive negative => positive.mayRaise signal || mayRaiseOptional signal negative
  | .block body => mayRaiseAny signal body
  | .loop initial _ body step =>
    mayRaiseOptional signal initial ||
      signal ≠ .leaveLoop && (body.mayRaise signal || mayRaiseOptional signal step)
  | .breakLoop => signal = .leaveLoop
  | .returnValue _ => signal = .leaveFunction
  | _ => false

/-- The signal may come out of the statement, if there is one. -/
def mayRaiseOptional (signal : Signal) : Option Stmt → Bool
  | none => false
  | some s => s.mayRaise signal

/-- The signal may come out of one of the statements. -/
def mayRaiseAny (signal : Signal) : List Stmt → Bool
  | [] => false
  | s :: rest => s.mayRaise signal || mayRaiseAny signal rest

end

/-- No signal comes out of the statements. -/
def areClosed (body : List Stmt) : Bool :=
  !mayRaiseAny .leaveLoop body && !mayRaiseAny .leaveFunction body

/-- What comes out of the body or the step of a loop comes out of the loop, unless it leaves it. -/
theorem mayRaise_loop {initial step : Option Stmt} {test : Expr} {body : Stmt} {signal : Signal}
    (hsignal : signal ≠ .leaveLoop) (h : body.mayRaise signal ∨ mayRaiseOptional signal step) :
    (Stmt.loop initial test body step).mayRaise signal := by
  simp [mayRaise, hsignal, h]

theorem areClosed_iff {body : List Stmt} :
    areClosed body ↔ ∀ signal, mayRaiseAny signal body = false := by
  rw [areClosed, Bool.and_eq_true, Bool.not_eq_true', Bool.not_eq_true']
  refine ⟨fun h signal => ?_, fun h => ⟨h .leaveLoop, h .leaveFunction⟩⟩
  cases signal with
  | leaveLoop => exact h.1
  | leaveFunction => exact h.2

theorem areClosed_cons {s : Stmt} {rest : List Stmt} :
    areClosed (s :: rest) ↔ (∀ signal, s.mayRaise signal = false) ∧ areClosed rest := by
  simp only [areClosed_iff, mayRaiseAny, Bool.or_eq_false_iff, forall_and]

mutual

/-- Wherever a module or a function is declared inside the statement, no signal comes out of a
member of the module, and none that leaves a loop out of the body of the function. -/
def isDisciplined : Stmt → Bool
  | .branch _ positive negative => positive.isDisciplined && isDisciplinedOptional negative
  | .block body => areDisciplined body
  | .loop initial _ body step =>
    isDisciplinedOptional initial && body.isDisciplined && isDisciplinedOptional step
  | .function _ _ body => !body.mayRaise .leaveLoop && body.isDisciplined
  | .classDecl _ fields methods => areDisciplined fields && areDisciplined methods
  | .module _ fields methods =>
    areClosed fields && areDisciplined fields && (areClosed methods && areDisciplined methods)
  | _ => true

/-- The statement is disciplined, if there is one. -/
def isDisciplinedOptional : Option Stmt → Bool
  | none => true
  | some s => s.isDisciplined

/-- All the statements are disciplined. -/
def areDisciplined : List Stmt → Bool
  | [] => true
  | s :: rest => s.isDisciplined && areDisciplined rest

end

end Stmt

end Bytewalk
