import Bytewalk.Machine.Call

/-!
# Statements

How statements are executed. Statements inside are executed by the execution `execute`,
expressions by the execution `evaluate`; the machine ties both to the definitions of this module
and of the previous ones. A part that is not executed is passed over, so that the position always
ends behind the statement, unless a signal leaves it midway.
-/

namespace Bytewalk.Machine

open Decoder

variable {σ : Type} (m : Setup σ) (execute : Exec σ Flow) (evaluate : Exec σ Operand)

/-- Executes a statement, unless a zero byte stands in its place. -/
def executeOptional : Exec σ Flow := do
  if ← Exec.decode (present m.program.image) then execute else return .normal

/-- Evaluates a condition. -/
def condition : Exec σ Bool := do
  Exec.lift (← evaluateValue evaluate).truthy

/-- Adds a line to the output. -/
def emitLine (line : String) : Exec σ Unit :=
  modify fun s =>
    if m.config.echo then { s with echoed := s.echoed.push line }
    else { s with output := s.output.push line }

/-- Prints the value of an expression, or the name of an entity. -/
def print : Exec σ Flow := do
  let binding ← Exec.bindingOf (← evaluate)
  emitLine m (binding.render m.program.names)
  return .normal

/-- Executes one of two statements and passes over the other. A signal out of the first leaves the
position inside the statement. -/
def branch : Exec σ Flow := do
  let image := m.program.image
  if ← condition evaluate then
    match ← execute with
    | .normal =>
      Exec.decode (passOptionalStatement image)
      return .normal
    -- Whoever receives the signal moves the position.
    | flow => return flow
  else
    Exec.decode (passStatement image)
    executeOptional m execute

/-- Executes statements in a scope of their own. -/
def block : Exec σ Flow := do
  let number ← Exec.decode (count m.program.image 1)
  Exec.inScope (← Exec.openScope) (Exec.sequence execute number)

/-- Declares a variable or a constant. -/
def declare : Exec σ Flow := do
  let image := m.program.image
  let flag ← Exec.decode (byte image)
  let name ← Exec.decode (symbol image)
  let value ← evaluateOptional m evaluate
  Exec.bindHere m.program.names name (.variable (flag ≠ 0) value)
  return .normal

/-- Assigns to a variable. Which variable is decided, and refused, before the new value is
evaluated. -/
def assign : Exec σ Flow := do
  let name ← Exec.decode (symbol m.program.image)
  let cell ← Exec.resolve m.program.names name
  match ← Exec.read cell with
  | .variable false _ => pure ()
  | .variable true _ => Exec.fail (.constAssignment (m.program.names.display name))
  | other => Exec.fail (.notAssignable (other.kind ++ " " ++ m.program.names.display name))
  -- No evaluation turns a variable into a constant.
  let value ← evaluateValue evaluate
  modify fun s => { s with store := s.store.write cell (.variable false value) }
  return .normal

/-- Executes the step of a loop. After a signal to leave the loop the position is behind the
step. -/
def loopStep : Exec σ Flow := do
  let start ← Exec.position
  match ← executeOptional m execute with
  | .breakLoop =>
    Exec.seek start
    Exec.decode (passOptionalStatement m.program.image)
    return .breakLoop
  | flow => return flow

/-- One turn of a loop whose condition is at `start`: the flow with which the loop ends, if it
ends. A body that leaves the loop is passed over, and the step is still executed once. -/
def loopTurn (start : Nat) : Exec σ (Option Flow) := do
  let image := m.program.image
  Exec.seek start
  if ← condition evaluate then
    let body ← Exec.position
    match ← execute with
    | .normal =>
      match ← loopStep m execute with
      | .normal => return none
      | .breakLoop => return some .normal
      | .returnValue value => return some (.returnValue value)
    | .breakLoop =>
      -- The body was left midway.
      Exec.seek body
      Exec.decode (passStatement image)
      match ← loopStep m execute with
      | .returnValue value => return some (.returnValue value)
      | _ => return some .normal
    | .returnValue value => return some (.returnValue value)
  else
    Exec.decode (passStatement image)
    Exec.decode (passOptionalStatement image)
    return some .normal

/-- Repeats a body while a condition holds, for at most so many turns. -/
def loop (turns : Nat) : Exec σ Flow := do
  Exec.inScope (← Exec.openScope) do
    match ← executeOptional m execute with
    | .normal =>
      let start ← Exec.position
      Exec.iterate (loopTurn m execute evaluate start) turns
    | flow => return flow

/-- Declares a function. Its parameters are bound as placeholders in a scope of its own. -/
def declareFunction : Exec σ Flow := do
  let image := m.program.image
  let names := m.program.names
  let name ← Exec.decode (symbol image)
  let number ← Exec.decode (count image 4)
  -- The placeholders find out parameters of one name.
  let closure ← Exec.openScope
  let params ← Exec.collect (do
    let param ← Exec.decode (symbol image)
    Exec.bindIn names closure param .uninitialized
    return param) number
  let body ← Exec.position
  Exec.decode (passStatement image)
  Exec.bindHere names name (.function { name := ← Exec.qualify name, params, body, closure })
  return .normal

/-- Leaves a function with a value. -/
def returnValue : Exec σ Flow :=
  return .returnValue (← evaluateOptional m evaluate)

/-- Declares a class. Its members are passed over. -/
def declareClass : Exec σ Flow := do
  let image := m.program.image
  let name ← Exec.decode (symbol image)
  let fields ← Exec.decode (members image)
  let methods ← Exec.decode (members image)
  let closure := (← get).scope
  Exec.bindHere m.program.names name
    (.classInfo { name := ← Exec.qualify name, fields, methods, closure })
  return .normal

/-- Executes a counted list of statements, out of which no signal may lead. -/
def moduleMembers : Exec σ Unit := do
  let number ← Exec.decode (count m.program.image 1)
  match ← Exec.sequence execute number with
  | .normal => return
  | flow => Exec.fail flow.stray

/-- Declares a module. Its members are executed in a scope of its own. -/
def declareModule : Exec σ Flow := do
  let name ← Exec.decode (symbol m.program.image)
  let scope ← Exec.openScope
  Exec.inModule name (Exec.inScope scope do
    -- Fields, and then methods.
    moduleMembers m execute
    moduleMembers m execute)
  Exec.bindHere m.program.names name (.module { name := ← Exec.qualify name, scope })
  return .normal

/-- Binds the host function that has the name of a symbol, under this symbol or another. -/
def importHost : Exec σ Flow := do
  let image := m.program.image
  let names := m.program.names
  let source ← Exec.decode (symbol image)
  let target ← if ← Exec.decode (present image) then Exec.decode (symbol image) else pure source
  match names.get? source with
  | none => Exec.fail (.unnamedSymbol source)
  | some name =>
    match m.hosts.get? name with
    | none => Exec.fail (.unregisteredHost name)
    | some f =>
      Exec.bindHere names target (.host (← Exec.qualify target) f)
      return .normal

/-- Counts a statement, unless the limit has been reached. -/
def countStatement : Exec σ Unit := do
  modify fun s => { s with executed := s.executed + 1 }
  match m.config.fuel with
  | none => return
  | some limit => if limit < (← get).executed then Exec.fail (.limitExceeded (.fuel limit))

/-- Executes the statement that an opcode begins; loops make at most `turns` turns. -/
def statementOf (turns : Nat) : StatementOp → Exec σ Flow
  | .print => print m evaluate
  | .branch => branch m execute evaluate
  | .block => block m execute
  | .declare => declare m evaluate
  | .assign => assign m evaluate
  | .loop => loop m execute evaluate turns
  | .breakLoop => return .breakLoop
  | .function => declareFunction m
  | .call => do
    let _ ← call m execute evaluate
    return .normal
  | .returnValue => returnValue m evaluate
  | .classDecl => declareClass m
  | .module => declareModule m execute
  | .importHost => importHost m
  | .reserved => Exec.fail (.reservedOpcode StatementOp.reserved.byte)

/-- The statement at the position. An error that it causes carries its offset, unless an inner
statement has left its own. -/
def statement (turns : Nat) : Exec σ Flow := do
  let start ← Exec.position
  Exec.mapError (·.atOffset start) do
    countStatement m
    let byte ← Exec.decode (byte m.program.image)
    match StatementOp.ofByte? byte with
    | none => Exec.fail (.unknownOpcode "statement" byte)
    | some op => statementOf m execute evaluate turns op

end Bytewalk.Machine
