import Bytewalk.Proofs.Machine.Lockstep

/-!
# Runs whose cursor is moved by someone

The position of a run is changed where something is read and where the run jumps, and nowhere else.
This module spells the machine out with these two operations left open, for a mover to supply. The
plain mover gives the machine itself, `Mover.run_plain`. The watched mover looks at every position
to which the cursor comes, those inside of what is read included, and may stop the run there. So
`Setup.CursorStays` says of the machine that its cursor never leaves some positions: a watch that
waits for it elsewhere makes no difference.
-/

namespace Bytewalk

variable {σ α : Type}

/-- What moves the cursor of a run. -/
structure Mover (σ : Type) where
  /-- Reads with a decoder from the position on. -/
  read : {α : Type} → Decoder α → Exec σ α
  /-- Moves to a position. -/
  jump : Nat → Exec σ Unit

namespace Mover

/-! ## Movers -/

/-- Moves the cursor and does nothing else. -/
def plain : Mover σ where
  read := Exec.decode
  jump := Exec.seek

/-- The positions to which a decoder comes between the offset where it begins and the offset that
it leaves behind. No decoder goes backwards. -/
def track (p : Nat) : EStateM.Result Error Nat α → List Nat
  | .ok _ q | .error _ q => p :: q :: List.range' p (q - p)

/-- Executes, unless the watch stops the run at one of the positions. -/
def guarding (watch : Nat → Option Stop) (positions : State σ → List Nat) (x : Exec σ α) :
    Exec σ α := fun s =>
  match (positions s).findSome? watch with
  | some stop => .error stop s
  | none => x s

/-- Looks at every position before the cursor is moved there. -/
def watched (watch : Nat → Option Stop) : Mover σ where
  read decoder := guarding watch (fun s => track s.position (decoder s.position))
    (Exec.decode decoder)
  jump p := guarding watch (fun _ => [p]) (Exec.seek p)

/-! ## Expressions -/

section Expressions

variable (μ : Mover σ) (m : Setup σ) (evaluate : Exec σ Operand)

/-- Evaluates an optional expression to a value. -/
def evaluateOptional : Exec σ Value := do
  if ← μ.read (Decoder.present m.program.image) then Machine.evaluateValue evaluate
  else return .null

/-- A unary operator and its operand. -/
def unary : Exec σ Value := do
  let byte ← μ.read (Decoder.byte m.program.image)
  match UnaryOp.ofByte? byte with
  | none => Exec.fail (.unknownOpcode "unary operator" byte)
  | some op => Exec.lift (op.apply (← Machine.evaluateValue evaluate))

/-- A binary operator and its operands. -/
def binary : Exec σ Value := do
  let byte ← μ.read (Decoder.byte m.program.image)
  match BinaryOp.ofByte? byte with
  | none => Exec.fail (.unknownOpcode "binary operator" byte)
  | some op =>
    let left ← evaluate
    let right ← evaluate
    if op = .member then
      let _ ← Machine.moduleOf left
    let a ← Exec.valueOf left
    let b ← Exec.valueOf right
    Exec.lift (op.apply a b)

/-- The expression at the position. -/
def expression (call : Exec σ Value) : Exec σ Operand := do
  let byte ← μ.read (Decoder.byte m.program.image)
  match ExpressionOp.ofByte? byte with
  | none => Exec.fail (.unknownOpcode "expression" byte)
  | some .unary => return .value (← μ.unary m evaluate)
  | some .binary => return .value (← μ.binary m evaluate)
  | some .group => evaluate
  | some .literal => return .value (← μ.read (Decoder.literal m.program.image))
  | some .variable =>
    return .cell
      (← Exec.resolve m.program.names (← μ.read (Decoder.symbol m.program.image)))
  | some .call => return .value (← call)
  | some .accessor => Machine.accessor evaluate

end Expressions

/-! ## Calls -/

section Calls

variable (μ : Mover σ) (m : Setup σ) (execute : Exec σ Flow)

/-- Calls a function of the program, whose body the cursor jumps to. -/
def invoke (f : Function) (args : List Value) : Exec σ Value :=
  Machine.invoke m (do μ.jump f.body; execute) f args

/-- The call at the position. -/
def call (evaluate : Exec σ Operand) : Exec σ Value := do
  let callee ← μ.read (Decoder.symbol m.program.image)
  let number ← μ.read (Decoder.count m.program.image 1)
  let args ← Exec.collect (Machine.evaluateValue evaluate) number
  match ← Exec.read (← Exec.resolve m.program.names callee) with
  | .function f => μ.invoke m execute f args
  | .host _ f => Machine.callHost f args
  | other => Exec.fail (.notCallable (other.kind ++ " " ++ m.program.names.display callee))

end Calls

/-! ## Statements -/

section Statements

variable (μ : Mover σ) (m : Setup σ) (execute : Exec σ Flow) (evaluate : Exec σ Operand)

/-- Executes an optional statement. -/
def executeOptional : Exec σ Flow := do
  if ← μ.read (Decoder.present m.program.image) then execute else return .normal

/-- Executes one of two statements and passes over the other. -/
def branch : Exec σ Flow := do
  if ← Machine.condition evaluate then
    match ← execute with
    | .normal =>
      μ.read (Decoder.passOptionalStatement m.program.image)
      return .normal
    | flow => return flow
  else
    μ.read (Decoder.passStatement m.program.image)
    μ.executeOptional m execute

/-- Executes statements in a scope of their own. -/
def block : Exec σ Flow := do
  let number ← μ.read (Decoder.count m.program.image 1)
  Exec.inScope (← Exec.openScope) (Exec.sequence execute number)

/-- Declares a variable or a constant. -/
def declare : Exec σ Flow := do
  let flag ← μ.read (Decoder.byte m.program.image)
  let name ← μ.read (Decoder.symbol m.program.image)
  let value ← μ.evaluateOptional m evaluate
  Exec.bindHere m.program.names name (.variable (flag ≠ 0) value)
  return .normal

/-- Assigns to a variable. -/
def assign : Exec σ Flow := do
  let name ← μ.read (Decoder.symbol m.program.image)
  let cell ← Exec.resolve m.program.names name
  match ← Exec.read cell with
  | .variable false _ => pure ()
  | .variable true _ => Exec.fail (.constAssignment (m.program.names.display name))
  | other => Exec.fail (.notAssignable (other.kind ++ " " ++ m.program.names.display name))
  let value ← Machine.evaluateValue evaluate
  modify fun s => { s with store := s.store.write cell (.variable false value) }
  return .normal

/-- Executes the step of a loop. -/
def loopStep : Exec σ Flow := do
  let start ← Exec.position
  match ← μ.executeOptional m execute with
  | .breakLoop =>
    μ.jump start
    μ.read (Decoder.passOptionalStatement m.program.image)
    return .breakLoop
  | flow => return flow

/-- One turn of a loop whose condition is at `start`. -/
def loopTurn (start : Nat) : Exec σ (Option Flow) := do
  μ.jump start
  if ← Machine.condition evaluate then
    let body ← Exec.position
    match ← execute with
    | .normal =>
      match ← μ.loopStep m execute with
      | .normal => return none
      | .breakLoop => return some .normal
      | .returnValue value => return some (.returnValue value)
    | .breakLoop =>
      μ.jump body
      μ.read (Decoder.passStatement m.program.image)
      match ← μ.loopStep m execute with
      | .returnValue value => return some (.returnValue value)
      | _ => return some .normal
    | .returnValue value => return some (.returnValue value)
  else
    μ.read (Decoder.passStatement m.program.image)
    μ.read (Decoder.passOptionalStatement m.program.image)
    return some .normal

/-- Repeats a body while a condition holds, for at most so many turns. -/
def loop (turns : Nat) : Exec σ Flow := do
  Exec.inScope (← Exec.openScope) do
    match ← μ.executeOptional m execute with
    | .normal =>
      let start ← Exec.position
      Exec.iterate (μ.loopTurn m execute evaluate start) turns
    | flow => return flow

/-- Declares a function. -/
def declareFunction : Exec σ Flow := do
  let name ← μ.read (Decoder.symbol m.program.image)
  let number ← μ.read (Decoder.count m.program.image 4)
  let closure ← Exec.openScope
  let params ← Exec.collect (do
    let param ← μ.read (Decoder.symbol m.program.image)
    Exec.bindIn m.program.names closure param .uninitialized
    return param) number
  let body ← Exec.position
  μ.read (Decoder.passStatement m.program.image)
  Exec.bindHere m.program.names name
    (.function { name := ← Exec.qualify name, params, body, closure })
  return .normal

/-- Leaves a function with a value. -/
def returnValue : Exec σ Flow :=
  return .returnValue (← μ.evaluateOptional m evaluate)

/-- Declares a class. -/
def declareClass : Exec σ Flow := do
  let name ← μ.read (Decoder.symbol m.program.image)
  let fields ← μ.read (Decoder.members m.program.image)
  let methods ← μ.read (Decoder.members m.program.image)
  let closure := (← get).scope
  Exec.bindHere m.program.names name
    (.classInfo { name := ← Exec.qualify name, fields, methods, closure })
  return .normal

/-- Executes a counted list of statements, out of which no signal may lead. -/
def moduleMembers : Exec σ Unit := do
  let number ← μ.read (Decoder.count m.program.image 1)
  match ← Exec.sequence execute number with
  | .normal => return
  | flow => Exec.fail flow.stray

/-- Declares a module. -/
def declareModule : Exec σ Flow := do
  let name ← μ.read (Decoder.symbol m.program.image)
  let scope ← Exec.openScope
  Exec.inModule name (Exec.inScope scope do
    μ.moduleMembers m execute
    μ.moduleMembers m execute)
  Exec.bindHere m.program.names name (.module { name := ← Exec.qualify name, scope })
  return .normal

/-- Binds a host function under its own symbol or another. -/
def importHost : Exec σ Flow := do
  let source ← μ.read (Decoder.symbol m.program.image)
  if ← μ.read (Decoder.present m.program.image) then
    Machine.bindHost m source (← μ.read (Decoder.symbol m.program.image))
  else Machine.bindHost m source source

/-- Executes the statement that an opcode begins. -/
def statementOf (turns : Nat) : StatementOp → Exec σ Flow
  | .print => Machine.print m evaluate
  | .branch => μ.branch m execute evaluate
  | .block => μ.block m execute
  | .declare => μ.declare m evaluate
  | .assign => μ.assign m evaluate
  | .loop => μ.loop m execute evaluate turns
  | .breakLoop => return .breakLoop
  | .function => μ.declareFunction m
  | .call => do
    let _ ← μ.call m execute evaluate
    return .normal
  | .returnValue => μ.returnValue m evaluate
  | .classDecl => μ.declareClass m
  | .module => μ.declareModule m execute
  | .importHost => μ.importHost m
  | .reserved => Exec.fail (.reservedOpcode StatementOp.reserved.byte)

/-- The statement at the position. -/
def statement (turns : Nat) : Exec σ Flow := do
  let start ← Exec.position
  Exec.mapError (·.atOffset start) do
    Machine.countStatement m
    let byte ← μ.read (Decoder.byte m.program.image)
    match StatementOp.ofByte? byte with
    | none => Exec.fail (.unknownOpcode "statement" byte)
    | some op => μ.statementOf m execute evaluate turns op

end Statements

/-! ## Runs -/

section Runs

variable (μ : Mover σ) (m : Setup σ)

mutual

/-- Executes the statement at the position with so many steps. -/
def execute : Nat → Exec σ Flow
  | 0, s => Exec.exhaust s
  | n + 1, s => μ.statement m (execute n) (evaluate n) n s

/-- Evaluates the expression at the position with so many steps. -/
def evaluate : Nat → Exec σ Operand
  | 0, s => Exec.exhaust s
  | n + 1, s => μ.expression m (evaluate n) (μ.call m (execute n) (evaluate n)) s

end

/-- Runs the program from a state, to whose position the cursor is moved first. -/
def run (steps : Nat) (s : State σ) : EStateM.Result Stop (State σ) Unit :=
  (do μ.jump s.position; Machine.topLevel m (μ.execute m steps) steps : Exec σ Unit) s

/-- A statement with one step more. -/
theorem execute_succ (n : Nat) :
    μ.execute m (n + 1) = μ.statement m (μ.execute m n) (μ.evaluate m n) n := by
  funext s
  rw [execute]

/-- An expression with one step more. -/
theorem evaluate_succ (n : Nat) :
    μ.evaluate m (n + 1) =
      μ.expression m (μ.evaluate m n) (μ.call m (μ.execute m n) (μ.evaluate m n)) := by
  funext s
  rw [evaluate]

end Runs

/-! ## The plain mover -/

section Plain

variable (m : Setup σ)

/-- A call has moved the cursor to the body already. -/
theorem invoke_plain (execute : Exec σ Flow) (f : Function) (args : List Value) :
    plain.invoke m execute f args = Machine.invoke m execute f args := by
  have henter : Machine.enter m (do Exec.seek f.body; execute) f = Machine.enter m execute f := rfl
  rw [invoke, Machine.invoke_eq, Machine.invoke_eq]
  exact congrArg (fun enter => if args.length = f.params.length then
    Machine.withinDepth m (Machine.openFrame m f args >>= enter) else _) henter

theorem call_plain (execute : Exec σ Flow) (evaluate : Exec σ Operand) :
    plain.call m execute evaluate = Machine.call m execute evaluate := by
  have hinvoke := funext fun f => funext (invoke_plain m execute f)
  rw [call, hinvoke]
  rfl

theorem statementOf_plain (execute : Exec σ Flow) (evaluate : Exec σ Operand) (turns : Nat) :
    plain.statementOf m execute evaluate turns =
      Machine.statementOf m execute evaluate turns := by
  funext op
  cases op with
  | call => rw [statementOf, call_plain, Machine.statementOf]
  | _ => rfl

/-- The plain mover gives the machine. -/
theorem execute_evaluate_plain (n : Nat) :
    plain.execute m n = Machine.execute m n ∧ plain.evaluate m n = Machine.evaluate m n := by
  induction n with
  | zero => exact ⟨rfl, rfl⟩
  | succ n ih =>
    rw [execute_succ, evaluate_succ, Machine.execute_succ, Machine.evaluate_succ, ih.1, ih.2,
      call_plain, statement, statementOf_plain]
    exact ⟨rfl, rfl⟩

/-- The plain mover runs the program. -/
theorem run_plain (steps : Nat) (s : State σ) : plain.run m steps s = m.runFrom steps s := by
  rw [run, (execute_evaluate_plain m steps).1]
  rfl

end Plain

end Mover

/-- The cursor stays at positions of which `P` holds during the run from the state: a watch for
other positions never stops the run, whatever the reason would be. -/
def Setup.CursorStays (m : Setup σ) (P : Nat → Prop) (s : State σ) : Prop :=
  ∀ watch : Nat → Option Stop, (∀ p, (watch p).isSome → ¬ P p) → ∀ steps,
    (Mover.watched watch).run m steps s = m.runFrom steps s

end Bytewalk
