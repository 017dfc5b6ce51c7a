import Bytewalk.Code.Traversal
import Bytewalk.Program.Basic
import Bytewalk.Scope.Binding

/-!
# Machine states

What a run works with and what it changes. The setup of a run is fixed: the program, the host
functions and the limits. The state holds the position in the image, the scope, the modules
around, the open calls, the counted statements, the store, the printed lines and the state of the
host. An execution yields a state also when it stops early, so that nothing done before is lost.
-/

namespace Bytewalk

/-- The limits of a run, and where its lines go. -/
structure Config where
  /-- How many calls may be open at a time. -/
  maxCallDepth : Nat := 256
  /-- How many statements may be executed, if there is a limit. -/
  fuel : Option Nat := none
  /-- Whether printed lines are echoed rather than collected. -/
  echo : Bool := false
  deriving DecidableEq

/-- What does not change during a run. -/
structure Setup (σ : Type) where
  /-- The program. -/
  program : Program
  /-- The host functions that can be imported. -/
  hosts : Registry σ
  /-- The limits. -/
  config : Config

/-- What a statement asks of those around it. -/
inductive Flow where
  /-- Go on with the next statement. -/
  | normal
  /-- Leave the innermost loop. -/
  | breakLoop
  /-- Leave the function with a value. -/
  | returnValue (value : Value)
  deriving DecidableEq

namespace Flow

/-- The word that a program has for it. -/
def keyword : Flow → String
  | .normal => "normal"
  | .breakLoop => "break"
  | .returnValue _ => "return"

/-- Whether the next statement is to be executed. -/
def isNormal : Flow → Bool
  | .normal => true
  | _ => false

/-- Sameness, with values compared as `Value.same` does. -/
def same : Flow → Flow → Bool
  | .normal, .normal => true
  | .breakLoop, .breakLoop => true
  | .returnValue a, .returnValue b => a.same b
  | _, _ => false

/-- The flow for inspection. -/
def inspect : Flow → String
  | .normal => "Normal"
  | .breakLoop => "Break"
  | .returnValue value => "Return(" ++ value.inspect ++ ")"

/-- The cause of a signal that nothing receives. -/
def stray (flow : Flow) : Cause :=
  .strayControlFlow flow.keyword

end Flow

/-- What an expression yields: a value, or the cell that a name stands for. -/
inductive Operand where
  /-- A computed value. -/
  | value (v : Value)
  /-- The cell of a name. -/
  | cell (id : CellId)
  deriving DecidableEq

/-- What a run changes. -/
structure State (σ : Type) where
  /-- The offset of the next byte. -/
  position : Nat
  /-- The scope of the statements being executed. -/
  scope : Scope
  /-- The modules around the declarations being executed, outermost first. -/
  modules : List Symbol
  /-- How many calls are open. -/
  depth : Nat
  /-- How many statements have been begun. -/
  executed : Nat
  /-- Frames and cells. -/
  store : Store (Binding σ)
  /-- The collected lines. -/
  output : Array String
  /-- The echoed lines. -/
  echoed : Array String
  /-- The state of the host. -/
  host : σ

/-- Why an execution stops early. -/
inductive Stop where
  /-- It fails. -/
  | failed (e : Error)
  /-- It has used up the steps it was given and would need more. -/
  | exhausted
  deriving DecidableEq

/-- An execution, which reads and changes the state and may stop early. -/
abbrev Exec (σ : Type) (α : Type) := EStateM Stop (State σ) α

namespace Exec

variable {σ α : Type}

/-! ## Elementary executions -/

/-- Fails with a cause. -/
def fail (cause : Cause) : Exec σ α :=
  throw (.failed (.of cause))

/-- Stops for want of steps. -/
def exhaust : Exec σ α :=
  throw .exhausted

/-- The result of a computation that may fail. -/
def lift : Except Error α → Exec σ α
  | .ok a => pure a
  | .error e => throw (.failed e)

/-- Reads with a decoder from the position on. -/
def decode (decoder : Decoder α) : Exec σ α := fun s =>
  match decoder s.position with
  | .ok a p => .ok a { s with position := p }
  | .error e p => .error (.failed e) { s with position := p }

/-- The position. -/
def position : Exec σ Nat :=
  return (← get).position

/-- Moves to a position. -/
def seek (p : Nat) : Exec σ Unit :=
  modify fun s => { s with position := p }

/-- Opens a scope inside the current one, which is not entered yet. -/
def openScope : Exec σ Scope := fun s =>
  let (scope, store) := s.store.newChild s.scope
  .ok scope { s with store }

/-! ## Context

An execution in another context leaves the context as it found it, however it ends. -/

/-- Executes in a scope. -/
def inScope (scope : Scope) (body : Exec σ α) : Exec σ α := fun s =>
  let saved := s.scope
  match body { s with scope } with
  | .ok a t => .ok a { t with scope := saved }
  | .error e t => .error e { t with scope := saved }

/-- Executes with one more module around. -/
def inModule (symbol : Symbol) (body : Exec σ α) : Exec σ α := fun s =>
  let saved := s.modules
  match body { s with modules := saved ++ [symbol] } with
  | .ok a t => .ok a { t with modules := saved }
  | .error e t => .error e { t with modules := saved }

/-- Executes at another position with one more call open, in the scope and the modules of the
called function. -/
def inCall (entry : Nat) (scope : Scope) (modules : List Symbol) (body : Exec σ α) : Exec σ α :=
  fun s =>
    let position := s.position
    let callerScope := s.scope
    let callerModules := s.modules
    let depth := s.depth
    match body { s with position := entry, scope, modules, depth := depth + 1 } with
    | .ok a t => .ok a { t with position, scope := callerScope, modules := callerModules, depth }
    | .error e t =>
      .error e { t with position, scope := callerScope, modules := callerModules, depth }

/-- Changes the error of an execution that fails. -/
def mapError (f : Error → Error) (body : Exec σ α) : Exec σ α := fun s =>
  match body s with
  | .error (.failed e) t => .error (.failed (f e)) t
  | result => result

/-! ## Repetition -/

/-- Executes so many statements, up to the first that asks for something. -/
def sequence (statement : Exec σ Flow) : Nat → Exec σ Flow
  | 0, s => .ok .normal s
  | n + 1, s =>
    match statement s with
    | .ok .normal t => sequence statement n t
    | result => result

/-- Repeats a turn until it decides how to go on, for at most so many turns. -/
def iterate (turn : Exec σ (Option α)) : Nat → Exec σ α
  | 0, s => exhaust s
  | n + 1, s =>
    match turn s with
    | .ok none t => iterate turn n t
    | .ok (some a) t => .ok a t
    | .error e t => .error e t

/-- Executes so many times and collects the results. -/
def collect (item : Exec σ α) : Nat → Exec σ (List α)
  | 0 => return []
  | n + 1 => do
    let first ← item
    return first :: (← collect item n)

/-! ## Names and cells -/

/-- The qualified name of a symbol that is declared here. -/
def qualify (s : Symbol) : Exec σ QualifiedName :=
  return { parent := (← get).modules, symbol := s }

/-- The cell that a symbol stands for. -/
def resolve (names : NameTable) (s : Symbol) : Exec σ CellId := do
  match (← get).store.lookup? (← get).scope s with
  | some cell => return cell
  | none => fail (.unknownSymbol (names.display s))

/-- Binds a symbol in a scope that does not bind it yet. -/
def bindIn (names : NameTable) (scope : Scope) (s : Symbol) (binding : Binding σ) :
    Exec σ Unit := fun t =>
  if t.store.bindsLocally scope s then fail (.duplicateSymbol (names.display s)) t
  else .ok () { t with store := (t.store.bind scope s binding).2 }

/-- Binds a symbol in the current scope. -/
def bindHere (names : NameTable) (s : Symbol) (binding : Binding σ) : Exec σ Unit := do
  bindIn names (← get).scope s binding

/-- What a cell holds. -/
def read (cell : CellId) : Exec σ (Binding σ) :=
  return ((← get).store.read? cell).getD default

/-- What an operand stands for: a plain value is like a variable that holds it. -/
def bindingOf : Operand → Exec σ (Binding σ)
  | .value v => return .variable false v
  | .cell id => read id

/-- The value of an operand, as its cell has it now. -/
def valueOf : Operand → Exec σ Value
  | .value v => return v
  | .cell id => return (← read id).value

end Exec

end Bytewalk
