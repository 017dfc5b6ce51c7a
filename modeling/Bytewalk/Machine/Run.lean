import Bytewalk.Machine.Statement

/-!
# Runs

Executing a program from its first statement on. An execution is given a number of steps: so deep
may statements, expressions and calls nest, and so many turns may a loop make. Where the number of
statements is limited, `Setup.steps` suffices for every image, and the run comes to its end.
-/

namespace Bytewalk

namespace Machine

variable {σ : Type} (m : Setup σ)

mutual

/-- Executes the statement at the position with so many steps. -/
def execute : Nat → Exec σ Flow
  | 0, s => Exec.exhaust s
  | n + 1, s => statement m (execute n) (evaluate n) n s

/-- Evaluates the expression at the position with so many steps. -/
def evaluate : Nat → Exec σ Operand
  | 0, s => Exec.exhaust s
  | n + 1, s => expression m (evaluate n) (call m (execute n) (evaluate n)) s

end

/-- Executes statements up to the end of the code, at most so many. -/
def topLevel (execute : Exec σ Flow) : Nat → Exec σ Unit
  | 0, s => if s.position < m.program.codeEnd then Exec.exhaust s else .ok () s
  | n + 1, s =>
    let start := s.position
    if start < m.program.codeEnd then
      match execute s with
      | .ok .normal t => topLevel execute n t
      | .ok flow t => Exec.mapError (·.atOffset start) (Exec.fail flow.stray) t
      | .error e t => .error e t
    else
      .ok () s

end Machine

/-- The state before the first statement, with what earlier runs have left behind. -/
def State.initial {σ : Type} (output echoed : Array String) (host : σ) : State σ :=
  let (scope, store) := Store.empty.newRoot
  { position := codeStart, scope, modules := [], depth := 0, executed := 0, store
    output, echoed, host }

namespace Setup

variable {σ : Type} (m : Setup σ)

/-- How many steps a run is given. Every statement counts against the limit, and between two
statements expressions nest no deeper than the image is long. Without a limit the number is one
that no run uses up in practice. -/
def steps : Nat :=
  match m.config.fuel with
  | some limit => (limit + 1) * (m.program.image.size + 3)
  | none => 4611686018427387904

/-- Runs the program from a state with so many steps. -/
def runFrom (steps : Nat) (s : State σ) : EStateM.Result Stop (State σ) Unit :=
  Machine.topLevel m (Machine.execute m steps) steps s

end Setup

end Bytewalk
