import Bytewalk.Proofs.Machine.Congruence
import Bytewalk.Proofs.Scope.Store

/-!
# Accounts of what is open

A machine that keeps account. What begins is entered into the account, and what ends is taken out
again; where an execution fails, nothing is taken out. So the account at the end of a failed run
lists what was open when the error was raised, innermost first. The errors of this machine gather no
context on their way: they are those of the causes alone.

The account is kept beside the state of the host, where no program can see it. The machine may be
halted wherever a statement or an expression begins, and so its account can be looked at in the
middle of a run.
-/

namespace Bytewalk

variable {σ α : Type}

/-- What has begun and not ended. -/
inductive Entry where
  /-- The statement that begins at the offset is being executed. -/
  | statement (start : Nat)
  /-- It is the turn of the statement of the program that begins at the offset. -/
  | turn (start : Nat)
  /-- A function of the program is active. -/
  | call (name : QualifiedName)
  /-- A function of the host is active. -/
  | host (name : String)
  deriving DecidableEq

namespace Entry

/-- Where the statement begins, if this is one. -/
def start? : Entry → Option Nat
  | statement start | turn start => some start
  | call _ | host _ => none

/-- The name of the function of the program, if this is one. -/
def name? : Entry → Option QualifiedName
  | call name => some name
  | statement _ | turn _ | host _ => none

end Entry

/-- What has begun and not ended, innermost first. -/
abbrev Account := List Entry

namespace Account

/-- Where the innermost statement begins. -/
def start? (account : Account) : Option Nat :=
  account.findSome? Entry.start?

/-- The functions of the program that are active, innermost first. -/
def calls (account : Account) : List QualifiedName :=
  account.filterMap Entry.name?

@[simp]
theorem calls_append (account account' : Account) :
    calls (account ++ account') = account.calls ++ account'.calls :=
  List.filterMap_append

end Account

/-! ## Hosts with an account -/

/-- The state of a host and an account. -/
structure Accounted (σ : Type) where
  /-- The state of the host. -/
  host : σ
  /-- What is open. -/
  account : Account

/-- The host function beside an account. A call that fails stays in the account. -/
def HostFunction.accounted (f : HostFunction σ) : HostFunction (Accounted σ) where
  name := f.name
  arity := f.arity
  action args h :=
    match f.action args h.host with
    | (.ok value, host) => (.ok value, { h with host })
    | (.error e, host) => (.error e, { host, account := .host f.name :: h.account })

/-- The host functions beside an account. -/
def Registry.accounted (hosts : Registry σ) : Registry (Accounted σ) :=
  { functions := hosts.functions.map HostFunction.accounted }

/-- The setup of a host with an account. -/
abbrev Setup.accounted (m : Setup σ) : Setup (Accounted σ) :=
  m.rehosted m.hosts.accounted m.config

/-- The state with an account beside the host. -/
def State.onAccount (s : State σ) (account : Account) : State (Accounted σ) where
  position := s.position
  scope := s.scope
  modules := s.modules
  depth := s.depth
  executed := s.executed
  store := s.store.map (Binding.mapHost HostFunction.accounted)
  output := s.output
  echoed := s.echoed
  host := { host := s.host, account }

/-- The state with another account. -/
def State.withAccount (s : State (Accounted σ)) (account : Account) : State (Accounted σ) :=
  { s with host := { s.host with account } }

/-! ## Keeping account -/

/-- Executes something that is open meanwhile. -/
def Exec.opened (entry : Entry) (body : Exec (Accounted σ) α) : Exec (Accounted σ) α := fun s =>
  match body (s.withAccount (entry :: s.host.account)) with
  | .ok a t => .ok a (t.withAccount t.host.account.tail)
  | .error stop t => .error stop t

namespace Machine

variable (m : Setup (Accounted σ)) (halt : State (Accounted σ) → Bool)

/-- The value with which the body of a function returns. A signal out of a loop is refused while the
function is still open. -/
def bodyValue (execute : Exec σ Flow) (f : Function) (frame : Scope) : Exec σ Value := do
  match ← Exec.inCall f.body frame f.name.parent execute with
  | .returnValue value => return value
  | .normal => return .null
  | .breakLoop => Exec.fail Flow.breakLoop.stray

/-- Calls a function of the program, which is open from when its frame is there. -/
def invokeAccounted (execute : Exec (Accounted σ) Flow) (f : Function) (args : List Value) :
    Exec (Accounted σ) Value :=
  if args.length = f.params.length then
    withinDepth m do
      let frame ← openFrame m f args
      Exec.opened (.call f.name) (bodyValue execute f frame)
  else
    Exec.fail (.arityMismatch (f.name.render m.program.names) (toString f.params.length)
      args.length)

/-- The statement at the position, which is open from its beginning to its end. -/
def statementAccounted (execute : Exec (Accounted σ) Flow) (evaluate : Exec (Accounted σ) Operand)
    (turns : Nat) : Exec (Accounted σ) Flow := do
  let start ← Exec.position
  Exec.opened (.statement start) do
    countStatement m
    let byte ← Exec.decode (Decoder.byte m.program.image)
    match StatementOp.ofByte? byte with
    | none => Exec.fail (.unknownOpcode "statement" byte)
    | some op =>
      let call := callWith m (invokeAccounted m execute) evaluate
      statementWith m call execute evaluate turns op

mutual

/-- Executes the statement at the position, unless the machine is halted. -/
def executeAccounted : Nat → Exec (Accounted σ) Flow
  | 0, s => Exec.exhaust s
  | n + 1, s =>
    if halt s then Exec.exhaust s
    else statementAccounted m (executeAccounted n) (evaluateAccounted n) n s

/-- Evaluates the expression at the position, unless the machine is halted. -/
def evaluateAccounted : Nat → Exec (Accounted σ) Operand
  | 0, s => Exec.exhaust s
  | n + 1, s =>
    if halt s then Exec.exhaust s
    else
      let call := callWith m (invokeAccounted m (executeAccounted n)) (evaluateAccounted n)
      expression m (evaluateAccounted n) call s

end

/-- Executes a statement and refuses the signal that comes out of it. -/
def executeClosed (execute : Exec σ Flow) : Exec σ Unit := do
  match ← execute with
  | .normal => return
  | flow => Exec.fail flow.stray

/-- Executes the statements of the program up to the end of the code, at most so many. A signal that
comes out of one of them is refused while it is still the turn of this one. -/
def topLevelAccounted (execute : Exec (Accounted σ) Flow) : Nat → Exec (Accounted σ) Unit
  | 0 => topLevel m execute 0
  | n + 1 => do
    let start ← Exec.position
    if start < m.program.codeEnd then
      Exec.opened (.turn start) (executeClosed execute)
      topLevelAccounted execute n

end Machine

namespace Setup

variable (m : Setup σ)

/-- Runs the program from a state with so many steps and keeps account, unless the machine is
halted. -/
def runAccounted (halt : State (Accounted σ) → Bool) (steps : Nat) (s : State (Accounted σ)) :
    EStateM.Result Stop (State (Accounted σ)) Unit :=
  Machine.topLevelAccounted m.accounted (Machine.executeAccounted m.accounted halt steps) steps s

end Setup

end Bytewalk
