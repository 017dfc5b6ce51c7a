import Bytewalk.Machine.Expression
import Bytewalk.Proofs.Tree.Address

/-!
# Trees executed directly

What a program means as a tree, without an image: no offset is read, and nothing is ever passed
over. A function keeps the subtree that is its body. Scopes, modules and open calls belong to the
context in which a part is executed; what an execution changes is the world.

The evaluator is given a number of steps, which bounds how deep parts nest and how many turns a
loop makes. `run` executes a program; enough steps are those with which it is not exhausted.
-/

namespace Bytewalk.Tree

/-! ## Bindings -/

/-- A function of the program, with its body. -/
structure Function where
  /-- Its qualified name. -/
  name : QualifiedName
  /-- Its parameters in order. -/
  params : List Symbol
  /-- Its body. -/
  body : Stmt
  /-- Where the body stands in the program. -/
  address : Address
  /-- The scope that holds its parameters as placeholders; calls run inside it. -/
  closure : Scope

/-- A class of the program. Its members are known by where they stand and are not executed. -/
structure ClassInfo where
  /-- Its qualified name. -/
  name : QualifiedName
  /-- Where its fields stand. -/
  fields : List Address
  /-- Where its methods stand. -/
  methods : List Address
  /-- The scope of its declaration. -/
  closure : Scope

/-- What a cell holds. -/
inductive Binding (σ : Type) where
  /-- A variable, or a constant, and its value. -/
  | variable (constant : Bool) (value : Value)
  /-- A function of the program. -/
  | function (f : Function)
  /-- A class. -/
  | classInfo (c : ClassInfo)
  /-- A module. -/
  | module (m : ModuleInfo)
  /-- A function of the host and the name it was bound under. -/
  | host (name : QualifiedName) (f : HostFunction σ)

namespace Binding

variable {σ : Type}

/-- A variable without a value yet. -/
def uninitialized : Binding σ := .variable false .null

instance : Inhabited (Binding σ) := ⟨uninitialized⟩

/-- What kind of binding this is. -/
def kind : Binding σ → String
  | .variable .. => "variable"
  | .function _ => "function"
  | .classInfo _ => "class"
  | .module _ => "module"
  | .host .. => "host function"

/-- The value of a variable; everything else counts as null. -/
def value : Binding σ → Value
  | .variable _ value => value
  | _ => .null

/-- The printed form: the value of a variable, and the name of anything else. -/
def render (names : NameTable) : Binding σ → String
  | .variable _ value => value.display
  | .function f => "<" ++ f.name.render names ++ ">"
  | .classInfo c => "<" ++ c.name.render names ++ ">"
  | .module m => "<" ++ m.name.render names ++ ">"
  | .host name _ => "<" ++ name.render names ++ ">"

end Binding

/-! ## Worlds and failures -/

/-- What does not change during a run. -/
structure Setup (σ : Type) where
  /-- The names of the symbols. -/
  names : NameTable
  /-- The host functions that can be imported. -/
  hosts : Registry σ
  /-- The limits. -/
  config : Config

/-- What surrounds the part that is executed. -/
structure Context where
  /-- The scope. -/
  scope : Scope
  /-- The modules around, outermost first. -/
  modules : List Symbol
  /-- How many calls are open. -/
  depth : Nat

/-- The qualified name of a symbol that is declared here. -/
def Context.qualify (ctx : Context) (s : Symbol) : QualifiedName :=
  { parent := ctx.modules, symbol := s }

/-- What a run changes. -/
structure World (σ : Type) where
  /-- How many statements have been begun. -/
  executed : Nat
  /-- Frames and cells. -/
  store : Store (Binding σ)
  /-- The printed lines. -/
  lines : Array String
  /-- The state of the host. -/
  host : σ

/-- Who is to blame for a failure. -/
inductive Blame where
  /-- A statement of the program. -/
  | statement (a : Address)
  /-- A host function, which has given an offset of its own. -/
  | host (offset : Nat)
  deriving DecidableEq

/-- Why an execution fails, where, and in which functions. -/
structure Failure where
  /-- Why it fails. -/
  cause : Cause
  /-- Who is to blame, once it is known. -/
  blame : Option Blame := none
  /-- The functions that the failure has left, innermost first. -/
  frames : List String := []
  deriving DecidableEq

/-- The failure of a host function or an operator. -/
def Failure.ofError (e : Error) : Failure :=
  { cause := e.cause, blame := e.offset.map .host, frames := e.frames }

/-- Blames a statement, unless somebody has been blamed already. -/
def Failure.blaming (f : Failure) (a : Address) : Failure :=
  { f with blame := some (f.blame.getD (.statement a)) }

/-- Records that the failure has left a function. -/
def Failure.inFrame (f : Failure) (frame : String) : Failure :=
  { f with frames := f.frames ++ [frame] }

/-- Why an execution stops early. -/
inductive Stop where
  /-- It fails. -/
  | failed (f : Failure)
  /-- It has used up the steps it was given and would need more. -/
  | exhausted
  deriving DecidableEq

/-- An execution, which reads and changes the world and may stop early. -/
abbrev Eval (σ : Type) (α : Type) := EStateM Stop (World σ) α

namespace Eval

variable {σ α : Type}

/-- Fails with a cause. -/
def fail (cause : Cause) : Eval σ α :=
  throw (.failed { cause })

/-- Stops for want of steps. -/
def exhaust : Eval σ α :=
  throw .exhausted

/-- The result of a computation that may fail. -/
def lift : Except Error α → Eval σ α
  | .ok a => pure a
  | .error e => throw (.failed (.ofError e))

/-- Changes the failure of an execution that fails. -/
def mapFailure (f : Failure → Failure) (body : Eval σ α) : Eval σ α := fun w =>
  match body w with
  | .error (.failed e) u => .error (.failed (f e)) u
  | result => result

/-- Repeats a turn until it decides how to go on, for at most so many turns. -/
def iterate (turn : Eval σ (Option α)) : Nat → Eval σ α
  | 0 => exhaust
  | n + 1 => do
    match ← turn with
    | none => iterate turn n
    | some a => return a

/-- Opens a scope inside another one. -/
def openScope (parent : Scope) : Eval σ Scope := fun w =>
  .ok (w.store.newChild parent).1 { w with store := (w.store.newChild parent).2 }

/-- The cell that a symbol stands for in a scope. -/
def resolve (names : NameTable) (scope : Scope) (s : Symbol) : Eval σ CellId := fun w =>
  match w.store.lookup? scope s with
  | some cell => .ok cell w
  | none => fail (.unknownSymbol (names.display s)) w

/-- Binds a symbol in a scope that does not bind it yet. -/
def bindIn (names : NameTable) (scope : Scope) (s : Symbol) (binding : Binding σ) :
    Eval σ Unit := fun w =>
  if w.store.bindsLocally scope s then fail (.duplicateSymbol (names.display s)) w
  else .ok () { w with store := (w.store.bind scope s binding).2 }

/-- What a cell holds. -/
def read (cell : CellId) : Eval σ (Binding σ) := fun w =>
  .ok ((w.store.read? cell).getD default) w

/-- Replaces what a cell holds. -/
def write (cell : CellId) (binding : Binding σ) : Eval σ Unit := fun w =>
  .ok () { w with store := w.store.write cell binding }

/-- What an operand stands for: a plain value is like a variable that holds it. -/
def bindingOf : Operand → Eval σ (Binding σ)
  | .value v => return .variable false v
  | .cell id => read id

/-- The value of an operand, as its cell has it now. -/
def valueOf : Operand → Eval σ Value
  | .value v => return v
  | .cell id => return (← read id).value

/-- Adds a line to what has been printed. -/
def emit (line : String) : Eval σ Unit := fun w =>
  .ok () { w with lines := w.lines.push line }

end Eval

open Eval

variable {σ : Type} (t : Setup σ)

/-! ## Expressions and calls -/

section Parts

variable (execute : Context → Address → Stmt → Eval σ Flow)
  (evaluate : Context → Expr → Eval σ Operand)

/-- Evaluates an expression to a value. -/
def evaluateValue (ctx : Context) (e : Expr) : Eval σ Value := do
  valueOf (← evaluate ctx e)

/-- Evaluates an expression to a value, or to null where it is missing. -/
def evaluateOptional (ctx : Context) : Option Expr → Eval σ Value
  | none => return .null
  | some e => evaluateValue evaluate ctx e

/-- Evaluates expressions to values, from left to right. -/
def evaluateAll (ctx : Context) : List Expr → Eval σ (List Value)
  | [] => return []
  | e :: rest => do
    let first ← evaluateValue evaluate ctx e
    return first :: (← evaluateAll ctx rest)

/-- The module that an operand names. -/
def moduleOf : Operand → Eval σ ModuleInfo
  | .value v => fail (.invalidAccessor v.type.name)
  | .cell id => do
    match ← read id with
    | .module info => return info
    | other => fail (.invalidAccessor other.kind)

/-- A unary operator applied to its operand. -/
def unary (ctx : Context) (op : UnaryOp) (operand : Expr) : Eval σ Value := do
  lift (op.apply (← evaluateValue evaluate ctx operand))

/-- A binary operator applied to its operands. -/
def binary (ctx : Context) (op : BinaryOp) (left right : Expr) : Eval σ Value := do
  let l ← evaluate ctx left
  let r ← evaluate ctx right
  if op = .member then
    let _ ← moduleOf l
  let a ← valueOf l
  let b ← valueOf r
  lift (op.apply a b)

/-- An expression in the scope of a module. -/
def accessor (ctx : Context) (module inner : Expr) : Eval σ Operand := do
  let info ← moduleOf (← evaluate ctx module)
  evaluate { ctx with scope := info.scope } inner

/-- Opens the frame of a call: the parameters as variables that hold the arguments. -/
def openFrame (f : Function) (args : List Value) : Eval σ Scope := do
  let frame ← openScope f.closure
  (f.params.zip args).forM fun i => bindIn t.names frame i.1 (.variable false i.2)
  return frame

/-- Executes the body of a function in its frame, and yields the value with which it returns. -/
def enter (ctx : Context) (f : Function) (frame : Scope) : Eval σ Value :=
  mapFailure (·.inFrame (f.name.render t.names)) do
    let inner := { scope := frame, modules := f.name.parent, depth := ctx.depth + 1 }
    match ← execute inner f.address f.body with
    | .returnValue value => return value
    | .normal => return .null
    | .breakLoop => fail Flow.breakLoop.stray

/-- Calls a function of the program. -/
def invoke (ctx : Context) (f : Function) (args : List Value) : Eval σ Value := do
  if args.length ≠ f.params.length then
    fail (.arityMismatch (f.name.render t.names) (toString f.params.length) args.length)
  else if t.config.maxCallDepth ≤ ctx.depth then
    fail (.limitExceeded (.callDepth t.config.maxCallDepth))
  else
    enter t execute ctx f (← openFrame t f args)

/-- Calls a function of the host. -/
def callHost (f : HostFunction σ) (args : List Value) : Eval σ Value := fun w =>
  match f.call args w.host with
  | (.ok value, host) => .ok value { w with host }
  | (.error e, host) => .error (.failed (.ofError e)) { w with host }

/-- A call: the arguments are evaluated before the name is looked up. -/
def call (ctx : Context) (callee : Symbol) (args : List Expr) : Eval σ Value := do
  let values ← evaluateAll evaluate ctx args
  match ← read (← resolve t.names ctx.scope callee) with
  | .function f => invoke t execute ctx f values
  | .host _ f => callHost f values
  | other => fail (.notCallable (other.kind ++ " " ++ t.names.display callee))

/-- An expression. -/
def expression (ctx : Context) : Expr → Eval σ Operand
  | .literal value => return .value value
  | .variable symbol => return .cell (← resolve t.names ctx.scope symbol)
  | .unary op operand => return .value (← unary evaluate ctx op operand)
  | .binary op left right => return .value (← binary evaluate ctx op left right)
  | .group inner => evaluate ctx inner
  | .call callee args => return .value (← call t execute evaluate ctx callee args)
  | .accessor module inner => accessor evaluate ctx module inner

/-! ## Statements -/

/-- Statements one behind the other with their addresses. -/
def located (place : Nat → Address) : List Stmt → List (Address × Stmt)
  | [] => []
  | s :: rest => (place 0, s) :: located (fun i => place (i + 1)) rest

@[simp]
theorem length_located (place : Nat → Address) (body : List Stmt) :
    (located place body).length = body.length := by
  induction body generalizing place with
  | nil => rfl
  | cons s rest ih => simp [located, ih]

/-- Executes statements up to the first that asks for something. -/
def sequence (ctx : Context) : List (Address × Stmt) → Eval σ Flow
  | [] => return .normal
  | (a, s) :: rest => do
    match ← execute ctx a s with
    | .normal => sequence ctx rest
    | flow => return flow

/-- Executes a statement, unless it is missing. -/
def executeOptional (ctx : Context) (a : Address) : Option Stmt → Eval σ Flow
  | none => return .normal
  | some s => execute ctx a s

/-- Evaluates a condition. -/
def condition (ctx : Context) (e : Expr) : Eval σ Bool := do
  lift (← evaluateValue evaluate ctx e).truthy

/-- Executes one of two statements. -/
def branch (ctx : Context) (a : Address) (test : Expr) (positive : Stmt) (negative : Option Stmt) :
    Eval σ Flow := do
  if ← condition evaluate ctx test then execute ctx (a.child .positive) positive
  else executeOptional execute ctx (a.child .negative) negative

/-- Declares an entity. -/
def declare (ctx : Context) (symbol : Symbol) (binding : Binding σ) : Eval σ Flow := do
  bindIn t.names ctx.scope symbol binding
  return .normal

/-- Assigns to a variable. Which variable is decided, and refused, before the new value is
evaluated. -/
def assign (ctx : Context) (symbol : Symbol) (value : Expr) : Eval σ Flow := do
  let cell ← resolve t.names ctx.scope symbol
  match ← read cell with
  | .variable false _ => pure ()
  | .variable true _ => fail (.constAssignment (t.names.display symbol))
  | other => fail (.notAssignable (other.kind ++ " " ++ t.names.display symbol))
  let result ← evaluateValue evaluate ctx value
  write cell (.variable false result)
  return .normal

/-- One turn of a loop: the flow with which the loop ends, if it ends. After a body that leaves the
loop the step is still executed once. -/
def loopTurn (ctx : Context) (a : Address) (test : Expr) (body : Stmt) (step : Option Stmt) :
    Eval σ (Option Flow) := do
  if ← condition evaluate ctx test then
    match ← execute ctx (a.child .body) body with
    | .normal =>
      match ← executeOptional execute ctx (a.child .step) step with
      | .normal => return none
      | .breakLoop => return some .normal
      | .returnValue value => return some (.returnValue value)
    | .breakLoop =>
      match ← executeOptional execute ctx (a.child .step) step with
      | .returnValue value => return some (.returnValue value)
      | _ => return some .normal
    | .returnValue value => return some (.returnValue value)
  else
    return some .normal

/-- Repeats a body while a condition holds, for at most so many turns. -/
def loop (turns : Nat) (ctx : Context) (a : Address) (initial : Option Stmt) (test : Expr)
    (body : Stmt) (step : Option Stmt) : Eval σ Flow := do
  let inner := { ctx with scope := ← openScope ctx.scope }
  match ← executeOptional execute inner (a.child .initial) initial with
  | .normal => iterate (loopTurn execute evaluate inner a test body step) turns
  | flow => return flow

/-- Declares a function. Its parameters are bound as placeholders in a scope of its own. -/
def declareFunction (ctx : Context) (a : Address) (symbol : Symbol) (params : List Symbol)
    (body : Stmt) : Eval σ Flow := do
  let closure ← openScope ctx.scope
  params.forM fun param => bindIn t.names closure param .uninitialized
  declare t ctx symbol
    (.function { name := ctx.qualify symbol, params, body, address := a.child .body, closure })

/-- Executes members of a module, out of which no signal may lead. -/
def moduleMembers (ctx : Context) (members : List (Address × Stmt)) : Eval σ Unit := do
  match ← sequence execute ctx members with
  | .normal => return
  | flow => fail flow.stray

/-- Executes the fields and then the methods of a module. -/
def moduleBody (ctx : Context) (a : Address) (fields methods : List Stmt) : Eval σ Unit := do
  moduleMembers execute ctx (located (fun i => a.child (.field i)) fields)
  moduleMembers execute ctx (located (fun i => a.child (.method i)) methods)

/-- Declares a module. Its members are executed in a scope of its own. -/
def declareModule (ctx : Context) (a : Address) (symbol : Symbol) (fields methods : List Stmt) :
    Eval σ Flow := do
  let scope ← openScope ctx.scope
  moduleBody execute { ctx with scope, modules := ctx.modules ++ [symbol] } a fields methods
  declare t ctx symbol (.module { name := ctx.qualify symbol, scope })

/-- Binds the host function that has the name of one symbol under another symbol. -/
def importHost (ctx : Context) (source target : Symbol) : Eval σ Flow := do
  match t.names.get? source with
  | none => fail (.unnamedSymbol source)
  | some name =>
    match t.hosts.get? name with
    | none => fail (.unregisteredHost name)
    | some f => declare t ctx target (.host (ctx.qualify target) f)

/-- Counts a statement, unless the limit has been reached. -/
def countStatement : Eval σ Unit := fun w =>
  let counted := { w with executed := w.executed + 1 }
  match t.config.fuel with
  | none => .ok () counted
  | some limit =>
    if limit < counted.executed then fail (.limitExceeded (.fuel limit)) counted
    else .ok () counted

/-- What a statement does; loops make at most `turns` turns. -/
def statementOf (turns : Nat) (ctx : Context) (a : Address) : Stmt → Eval σ Flow
  | .print value => do
    let binding ← bindingOf (← evaluate ctx value)
    emit (binding.render t.names)
    return .normal
  | .branch test positive negative => branch execute evaluate ctx a test positive negative
  | .block body => do
    let inner := { ctx with scope := ← openScope ctx.scope }
    sequence execute inner (located (fun i => a.child (.item i)) body)
  | .declare constant symbol initial => do
    declare t ctx symbol (.variable constant (← evaluateOptional evaluate ctx initial))
  | .assign symbol value => assign t evaluate ctx symbol value
  | .loop initial test body step => loop execute evaluate turns ctx a initial test body step
  | .breakLoop => return .breakLoop
  | .function symbol params body => declareFunction t ctx a symbol params body
  | .call callee args => do
    let _ ← call t execute evaluate ctx callee args
    return .normal
  | .returnValue value => return .returnValue (← evaluateOptional evaluate ctx value)
  | .classDecl symbol fields methods =>
    declare t ctx symbol (.classInfo {
      name := ctx.qualify symbol
      fields := (located (fun i => a.child (.field i)) fields).map (·.1)
      methods := (located (fun i => a.child (.method i)) methods).map (·.1)
      closure := ctx.scope })
  | .module symbol fields methods => declareModule t execute ctx a symbol fields methods
  | .importHost symbol target => importHost t ctx symbol (target.getD symbol)

/-- A statement. It is to blame for a failure, unless an inner statement is. -/
def statement (turns : Nat) (ctx : Context) (a : Address) (s : Stmt) : Eval σ Flow :=
  mapFailure (·.blaming a) do
    countStatement t
    statementOf t execute evaluate turns ctx a s

end Parts

/-! ## Runs -/

mutual

/-- Executes a statement with so many steps. -/
def execute : Nat → Context → Address → Stmt → Eval σ Flow
  | 0, _, _, _ => exhaust
  | n + 1, ctx, a, s => statement t (execute n) (evaluate n) n ctx a s

/-- Evaluates an expression with so many steps. -/
def evaluate : Nat → Context → Expr → Eval σ Operand
  | 0, _, _ => exhaust
  | n + 1, ctx, e => expression t (execute n) (evaluate n) ctx e

end

/-- Executes the statements of a program, out of which no signal may lead. -/
def topLevel (execute : Address → Stmt → Eval σ Flow) : List (Address × Stmt) → Eval σ Unit
  | [] => return
  | (a, s) :: rest => do
    match ← execute a s with
    | .normal => topLevel execute rest
    | flow => mapFailure (·.blaming a) (fail flow.stray)

/-- Executes so many statements of a program, and is exhausted if there are more of them. -/
def topLevelWithin (execute : Address → Stmt → Eval σ Flow) (turns : Nat)
    (items : List (Address × Stmt)) : Eval σ Unit := do
  topLevel execute (items.take turns)
  if turns < items.length then Eval.exhaust

/-- Turns enough for all statements make no difference. -/
theorem topLevelWithin_of_length_le {execute : Address → Stmt → Eval σ Flow} {turns : Nat}
    {items : List (Address × Stmt)} (h : items.length ≤ turns) :
    topLevelWithin execute turns items = topLevel execute items := by
  rw [topLevelWithin, List.take_of_length_le h, if_neg (Nat.not_lt.2 h)]
  exact bind_pure_unit

theorem topLevelWithin_cons (execute : Address → Stmt → Eval σ Flow) (turns : Nat) (a : Address)
    (s : Stmt) (rest : List (Address × Stmt)) :
    topLevelWithin execute (turns + 1) ((a, s) :: rest) = (do
      match ← execute a s with
      | .normal => topLevelWithin execute turns rest
      | flow => Eval.mapFailure (·.blaming a) (Eval.fail flow.stray)) := by
  have hmore : turns + 1 < ((a, s) :: rest).length ↔ turns < rest.length := Nat.succ_lt_succ_iff
  rw [topLevelWithin, List.take_succ_cons, topLevel, bind_assoc]
  simp only [hmore]
  congr 1
  funext flow
  cases flow <;> rfl

/-- The context of the statements of a program. -/
def Context.root : Context where
  scope := (Store.empty (α := Unit)).newRoot.1
  modules := []
  depth := 0

/-- The world before the first statement. -/
def World.initial (host : σ) : World σ where
  executed := 0
  store := Store.empty.newRoot.2
  lines := #[]
  host := host

/-- Before the first statement nothing is bound. -/
theorem World.read?_initial (host : σ) (cell : CellId) :
    (World.initial host).store.read? cell = none := by
  simp [World.initial, Store.newRoot, Store.empty, Store.read?]

/-- Runs a program with so many steps. -/
def run (steps : Nat) (program : List Stmt) (host : σ) : EStateM.Result Stop (World σ) Unit :=
  topLevel (execute t steps .root) (located (fun i => { index := i }) program)
    (World.initial host)

end Bytewalk.Tree
