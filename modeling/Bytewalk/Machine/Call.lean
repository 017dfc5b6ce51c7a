import Bytewalk.Machine.Expression

/-!
# Calls

How functions are called. The arguments are evaluated in the caller's scope, and only then is the
name of the function looked up. The body of a function of the program is one statement, executed
in a new frame inside the function's own scope; the caller goes on where it was, however the body
ends.
-/

namespace Bytewalk.Machine

open Decoder

variable {σ : Type} (m : Setup σ)

/-- The frame of a call: the parameters as variables that hold the arguments. -/
def openFrame (f : Function) (args : List Value) : Exec σ Scope := fun s =>
  let (scope, store) := s.store.newChild f.closure
  (do
    (f.params.zip args).forM fun (param, value) =>
      Exec.bindIn m.program.names scope param (.variable false value)
    return scope) { s with store }

/-- Calls a function of the program. -/
def invoke (execute : Exec σ Flow) (f : Function) (args : List Value) : Exec σ Value := do
  let names := m.program.names
  if args.length ≠ f.params.length then
    Exec.fail (.arityMismatch (f.name.render names) (toString f.params.length) args.length)
  if m.config.maxCallDepth ≤ (← get).depth then
    Exec.fail (.limitExceeded (.callDepth m.config.maxCallDepth))
  let frame ← openFrame m f args
  -- A stray signal counts as arising inside the function.
  Exec.mapError (·.inFrame (f.name.render names)) do
    match ← Exec.inCall f.body frame f.name.parent execute with
    | .returnValue value => return value
    | .normal => return .null
    | .breakLoop => Exec.fail Flow.breakLoop.stray

/-- Calls a function of the host. -/
def callHost (f : HostFunction σ) (args : List Value) : Exec σ Value := fun s =>
  match f.call args s.host with
  | (.ok value, host) => .ok value { s with host }
  | (.error e, host) => .error (.failed e) { s with host }

/-- The call at the position: a symbol, a count and the arguments. -/
def call (execute : Exec σ Flow) (evaluate : Exec σ Operand) : Exec σ Value := do
  let image := m.program.image
  let callee ← Exec.decode (symbol image)
  let number ← Exec.decode (count image 1)
  let args ← Exec.collect (evaluateValue evaluate) number
  -- A fault of an argument comes before a fault of the name.
  match ← Exec.read (← Exec.resolve m.program.names callee) with
  | .function f => invoke m execute f args
  | .host _ f => callHost f args
  | other => Exec.fail (.notCallable (other.kind ++ " " ++ m.program.names.display callee))

end Bytewalk.Machine
