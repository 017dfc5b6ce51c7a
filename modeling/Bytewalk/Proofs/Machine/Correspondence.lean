import Bytewalk.Machine.Run
import Bytewalk.Proofs.Machine.Equations
import Bytewalk.Proofs.Machine.Operators

/-!
# Correspondences

What the executions of two machines have in common that run the same program. The machines may lend
different host functions, which work on different states of the host, and have different limits. A
relation between their executions is a correspondence if elementary executions are related to their
twins and composed ones are related where their parts are; then the executions of all expressions
and statements are related where those of the parts inside them are.

Two things are left to the relation: it may bear that a signal is refused, or it may not, and it may
know all functions that are bound, or only some. `FullCorrespondence` says that it bears and knows
all. Whether it knows all classes is left to it in any case. Calls, the counting of statements and
the context of errors are not looked at here.
-/

namespace Bytewalk

variable {σ σ' α β : Type}

/-- The setup of a host with another state: other host functions are lent to the same program. -/
abbrev Setup.rehosted (m : Setup σ) (hosts' : Registry σ') (c : Config) : Setup σ' :=
  { program := m.program, hosts := hosts', config := c }

/-- The binding with another host function in the place of one. -/
def Binding.mapHost (lift : HostFunction σ → HostFunction σ') : Binding σ → Binding σ'
  | .variable constant value => .variable constant value
  | .function f => .function f
  | .classInfo c => .classInfo c
  | .module m => .module m
  | .host name f => .host name (lift f)

namespace Binding

variable (lift : HostFunction σ → HostFunction σ') (b : Binding σ)

@[simp]
theorem mapHost_id : b.mapHost id = b := by
  cases b <;> rfl

@[simp]
theorem value_mapHost : (b.mapHost lift).value = b.value := by
  cases b <;> rfl

/-- A host function is printed by the name under which it is bound. -/
@[simp]
theorem render_mapHost (names : NameTable) : (b.mapHost lift).render names = b.render names := by
  cases b <;> rfl

/-- The binding is a variable or a module: neither can anything be called by it, nor does it know
where members begin. -/
def IsInert : Binding σ → Prop
  | .function _ | .host _ _ | .classInfo _ => False
  | _ => True

end Binding

namespace Exec

/-- Opens a frame inside a scope. -/
def openIn (parent : Scope) : Exec σ Scope := fun s =>
  .ok (s.store.newChild parent).1 { s with store := (s.store.newChild parent).2 }

/-- Looks something up in the state. -/
def asks (view : State σ → α) : Exec σ α := fun s =>
  .ok (view s) s

end Exec

namespace Machine

open Decoder

/-! ## Elementary executions -/

/-- The decoders with which executions read the image. -/
inductive Reads (image : Image) : {α : Type} → Decoder α → Prop
  | byte : Reads image (byte image)
  | symbol : Reads image (symbol image)
  | count (least : Nat) : Reads image (count image least)
  | present : Reads image (present image)
  | literal : Reads image (literal image)
  | passStatement : Reads image (passStatement image)
  | passOptionalStatement : Reads image (passOptionalStatement image)
  | members : Reads image (members image)

/-- The cause is one of those that every machine raises in the same way: no limit is exceeded, and
no signal is refused. -/
structure IsPlain (cause : Cause) : Prop where
  /-- No limit is exceeded. -/
  noLimit : cause.category ≠ .limit
  /-- No signal is refused. -/
  noStray : ∀ keyword, cause ≠ .strayControlFlow keyword

/-- The executions that do the same on both machines, whatever the host. None of them exceeds a
limit or refuses a signal, and what they bind is known. -/
inductive Twins (m : Setup σ) (lift : HostFunction σ → HostFunction σ')
    (known : Binding σ → Prop) : {α : Type} → Exec σ α → Exec σ' α → Prop
  | pure {α : Type} (a : α) : Twins m lift known (Pure.pure a) (Pure.pure a)
  | exhaust {α : Type} : Twins m lift known (Exec.exhaust : Exec σ α) Exec.exhaust
  | fail {α : Type} {cause : Cause} (h : IsPlain cause) :
      Twins m lift known (Exec.fail cause : Exec σ α) (Exec.fail cause)
  | lift {α : Type} {result : Except Error α} (h : ∀ e, result = .error e → e.IsOverTypes) :
      Twins m lift known (Exec.lift result) (Exec.lift result)
  | decode {α : Type} {decoder : Decoder α} (h : Reads m.program.image decoder) :
      Twins m lift known (Exec.decode decoder) (Exec.decode decoder)
  | seek (p : Nat) : Twins m lift known (Exec.seek p) (Exec.seek p)
  | position : Twins m lift known (Exec.asks State.position) (Exec.asks State.position)
  | scope : Twins m lift known (Exec.asks State.scope) (Exec.asks State.scope)
  | qualify (name : Symbol) : Twins m lift known (Exec.qualify name) (Exec.qualify name)
  | resolve (name : Symbol) :
      Twins m lift known (Exec.resolve m.program.names name) (Exec.resolve m.program.names name)
  | openIn (parent : Scope) : Twins m lift known (Exec.openIn parent) (Exec.openIn parent)
  | bindIn (scope : Scope) (name : Symbol) {binding : Binding σ} (h : known binding) :
      Twins m lift known (Exec.bindIn m.program.names scope name binding)
        (Exec.bindIn m.program.names scope name (binding.mapHost lift))
  | write (cell : CellId) (value : Value) :
      Twins m lift known
        (modify fun s => { s with store := s.store.write cell (.variable false value) })
        (modify fun s => { s with store := s.store.write cell (.variable false value) })

/-! ## Constructs in other words -/

/-- The frame of a call is opened, and then the parameters are bound in it. -/
theorem openFrame_eq_bind (m : Setup σ) (f : Function) (args : List Value) :
    openFrame m f args = Exec.openIn f.closure >>= bindArguments m f args := rfl

/-- The scope of a class is looked up behind its members. -/
theorem declareClass_eq (m : Setup σ) : declareClass m = (do
    let name ← Exec.decode (symbol m.program.image)
    let fields ← Exec.decode (members m.program.image)
    let methods ← Exec.decode (members m.program.image)
    let closure ← Exec.asks State.scope
    let qualified ← Exec.qualify name
    Exec.bindHere m.program.names name
      (.classInfo { name := qualified, fields, methods, closure })
    return .normal) := rfl

/-- The call at the position, with a way to enter the functions of the program. -/
def callWith (m : Setup σ) (enter : Function → List Value → Exec σ Value)
    (evaluate : Exec σ Operand) : Exec σ Value := do
  let callee ← Exec.decode (symbol m.program.image)
  let number ← Exec.decode (count m.program.image 1)
  let args ← Exec.collect (evaluateValue evaluate) number
  match ← Exec.read (← Exec.resolve m.program.names callee) with
  | .function f => enter f args
  | .host _ f => callHost f args
  | other => Exec.fail (.notCallable (other.kind ++ " " ++ m.program.names.display callee))

/-- A call enters functions by invoking them. -/
theorem callWith_invoke (m : Setup σ) (execute : Exec σ Flow) (evaluate : Exec σ Operand) :
    callWith m (invoke m execute) evaluate = call m execute evaluate := rfl

/-- The statement that an opcode begins, with a way to call. -/
def statementWith (m : Setup σ) (call : Exec σ Value) (execute : Exec σ Flow)
    (evaluate : Exec σ Operand) (turns : Nat) : StatementOp → Exec σ Flow
  | .call => do
    let _ ← call
    return .normal
  | op => statementOf m execute evaluate turns op

/-- A statement calls as expressions do. -/
theorem statementWith_call (m : Setup σ) (execute : Exec σ Flow) (evaluate : Exec σ Operand)
    (turns : Nat) (op : StatementOp) :
    statementWith m (call m execute evaluate) execute evaluate turns op =
      statementOf m execute evaluate turns op := by
  cases op <;> rfl

/-! ## Correspondences -/

/-- A relation between the executions of two machines that the composition of executions respects,
as far as what cells hold is known. -/
structure Correspondence (m : Setup σ) (hosts' : Registry σ') (c : Config)
    (lift : HostFunction σ → HostFunction σ') (known : Binding σ → Prop)
    (R : {α : Type} → Exec σ α → Exec σ' α → Prop) : Prop where
  /-- Variables and modules are known. -/
  inert {binding : Binding σ} (h : binding.IsInert) : known binding
  /-- Registered host functions are known. -/
  registered {name : String} {f : HostFunction σ} (hf : m.hosts.get? name = some f)
    (qualified : QualifiedName) : known (.host qualified f)
  /-- Under every name both machines lend the same function. -/
  hosts (name : String) : hosts'.get? name = (m.hosts.get? name).map lift
  /-- Elementary executions are related to their twins. -/
  twins {α : Type} {x : Exec σ α} {x' : Exec σ' α} (h : Twins m lift known x x') : R x x'
  /-- One execution after the other. -/
  bind {α β : Type} {x : Exec σ α} {x' : Exec σ' α} {k : α → Exec σ β} {k' : α → Exec σ' β}
    (h : R x x') (hk : ∀ a, R (k a) (k' a)) : R (x >>= k) (x' >>= k')
  /-- What has been read of the store is known. -/
  read {α : Type} {cell : CellId} {k : Binding σ → Exec σ α} {k' : Binding σ' → Exec σ' α}
    (hk : ∀ b, known b → R (k b) (k' (b.mapHost lift))) :
    R (Exec.read cell >>= k) (Exec.read cell >>= k')
  /-- Executions in a scope. -/
  inScope {α : Type} {scope : Scope} {x : Exec σ α} {x' : Exec σ' α} (h : R x x') :
    R (Exec.inScope scope x) (Exec.inScope scope x')
  /-- Executions in a module. -/
  inModule {α : Type} {name : Symbol} {x : Exec σ α} {x' : Exec σ' α} (h : R x x') :
    R (Exec.inModule name x) (Exec.inModule name x')
  /-- Calls of host functions that are known under some name. -/
  callHost {name : QualifiedName} {f : HostFunction σ} (hf : known (.host name f))
    (args : List Value) : R (callHost f args) (callHost (lift f) args)
  /-- Printing a line. -/
  emitLine (line : String) : R (emitLine m line) (emitLine (m.rehosted hosts' c) line)

/-- A correspondence that bears everything that statements do. -/
structure FullCorrespondence (m : Setup σ) (hosts' : Registry σ') (c : Config)
    (lift : HostFunction σ → HostFunction σ') (known : Binding σ → Prop)
    (R : {α : Type} → Exec σ α → Exec σ' α → Prop) : Prop
    extends Correspondence m hosts' c lift known R where
  /-- A signal is refused. -/
  stray {α : Type} (flow : Flow) : R (Exec.fail flow.stray : Exec σ α) (Exec.fail flow.stray)
  /-- All functions are known. -/
  function (f : Function) : known (.function f)

namespace Correspondence

variable {m : Setup σ} {hosts' : Registry σ'} {c : Config}
  {lift : HostFunction σ → HostFunction σ'} {known : Binding σ → Prop}
  {R : {α : Type} → Exec σ α → Exec σ' α → Prop}

section Rules

variable (h : Correspondence m hosts' c lift known R)
include h

theorem pure (a : α) : R (Pure.pure a : Exec σ α) (Pure.pure a) :=
  h.twins (.pure a)

theorem fail {cause : Cause} (hcause : IsPlain cause) :
    R (Exec.fail cause : Exec σ α) (Exec.fail cause) :=
  h.twins (.fail hcause)

theorem decode {decoder : Decoder α} (hdecoder : Reads m.program.image decoder) :
    R (Exec.decode decoder : Exec σ α) (Exec.decode decoder) :=
  h.twins (.decode hdecoder)

theorem seek (p : Nat) : R (Exec.seek p : Exec σ Unit) (Exec.seek p) :=
  h.twins (.seek p)

theorem position : R (Exec.position : Exec σ Nat) Exec.position :=
  h.twins .position

theorem qualify (name : Symbol) :
    R (Exec.qualify name : Exec σ QualifiedName) (Exec.qualify name) :=
  h.twins (.qualify name)

theorem openScope : R (Exec.openScope : Exec σ Scope) Exec.openScope :=
  h.bind (h.twins .scope) fun scope => h.twins (.openIn scope)

theorem resolve (name : Symbol) :
    R (Exec.resolve m.program.names name : Exec σ CellId) (Exec.resolve m.program.names name) :=
  h.twins (.resolve name)

theorem bindHere (name : Symbol) {binding : Binding σ} (hknown : known binding) :
    R (Exec.bindHere m.program.names name binding)
      (Exec.bindHere m.program.names name (binding.mapHost lift)) :=
  h.bind (h.twins .scope) fun scope => h.twins (.bindIn scope name hknown)

theorem valueOf (operand : Operand) :
    R (Exec.valueOf operand : Exec σ Value) (Exec.valueOf operand) := by
  cases operand with
  | value v => exact h.pure v
  | cell cell =>
    refine h.read fun b _ => ?_
    rw [b.value_mapHost]
    exact h.pure b.value

theorem forM {ι : Type} {f : ι → Exec σ PUnit} {f' : ι → Exec σ' PUnit}
    (hf : ∀ i, R (f i) (f' i)) (items : List ι) : R (items.forM f) (items.forM f') := by
  induction items with
  | nil => exact h.pure _
  | cons i rest ih => exact h.bind (hf i) fun _ => ih

theorem collect {x : Exec σ α} {x' : Exec σ' α} (hx : R x x') (n : Nat) :
    R (Exec.collect x n) (Exec.collect x' n) := by
  induction n with
  | zero => exact h.pure _
  | succ n ih => exact h.bind hx fun _ => h.bind ih fun _ => h.pure _

theorem sequence {statement : Exec σ Flow} {statement' : Exec σ' Flow}
    (hs : R statement statement') (n : Nat) :
    R (Exec.sequence statement n) (Exec.sequence statement' n) := by
  induction n with
  | zero => exact h.pure _
  | succ n ih =>
    rw [Exec.sequence_succ, Exec.sequence_succ]
    refine h.bind hs fun flow => ?_
    cases flow with
    | normal => exact ih
    | breakLoop | returnValue => exact h.pure _

theorem iterate {turn : Exec σ (Option α)} {turn' : Exec σ' (Option α)} (hturn : R turn turn')
    (n : Nat) : R (Exec.iterate turn n) (Exec.iterate turn' n) := by
  induction n with
  | zero => exact h.twins .exhaust
  | succ n ih =>
    rw [Exec.iterate_succ, Exec.iterate_succ]
    refine h.bind hturn fun next => ?_
    cases next with
    | none => exact ih
    | some a => exact h.pure a

end Rules

/-! ## Expressions -/

section Expressions

variable (h : Correspondence m hosts' c lift known R) {evaluate : Exec σ Operand}
  {evaluate' : Exec σ' Operand} (he : R evaluate evaluate')
include h

theorem moduleOf (operand : Operand) :
    R (Machine.moduleOf operand : Exec σ ModuleInfo) (Machine.moduleOf operand) := by
  cases operand with
  | value v => exact h.fail ⟨by rintro ⟨⟩, by rintro _ ⟨⟩⟩
  | cell cell =>
    refine h.read fun binding _ => ?_
    cases binding with
    | module info => exact h.pure info
    | _ => exact h.fail ⟨by rintro ⟨⟩, by rintro _ ⟨⟩⟩

/-- The frame of a call is opened, and then the parameters are bound in it as variables. -/
theorem openFrame (f : Function) (args : List Value) :
    R (Machine.openFrame m f args) (Machine.openFrame (m.rehosted hosts' c) f args) := by
  rw [openFrame_eq_bind, openFrame_eq_bind]
  refine h.bind (h.twins (.openIn f.closure)) fun frame => ?_
  refine h.bind (h.forM (fun i => ?_) _) fun _ => h.pure frame
  exact h.twins (.bindIn frame i.1 (h.inert trivial))

include he

theorem evaluateValue : R (Machine.evaluateValue evaluate) (Machine.evaluateValue evaluate') :=
  h.bind he fun operand => h.valueOf operand

theorem evaluateOptional :
    R (Machine.evaluateOptional m evaluate)
      (Machine.evaluateOptional (m.rehosted hosts' c) evaluate') := by
  refine h.bind (h.decode .present) fun there => ?_
  cases there with
  | false => exact h.pure _
  | true => exact h.evaluateValue he

theorem unary : R (Machine.unary m evaluate) (Machine.unary (m.rehosted hosts' c) evaluate') := by
  refine h.bind (h.decode .byte) fun code => ?_
  cases UnaryOp.ofByte? code with
  | none => exact h.fail ⟨by rintro ⟨⟩, by rintro _ ⟨⟩⟩
  | some op =>
    exact h.bind (h.evaluateValue he) fun _ => h.twins (.lift fun _ => isOverTypes_of_unary)

theorem binary :
    R (Machine.binary m evaluate) (Machine.binary (m.rehosted hosts' c) evaluate') := by
  refine h.bind (h.decode .byte) fun code => ?_
  cases BinaryOp.ofByte? code with
  | none => exact h.fail ⟨by rintro ⟨⟩, by rintro _ ⟨⟩⟩
  | some op =>
    refine h.bind he fun left => h.bind he fun right => ?_
    have hvalues : R (do
        let a ← Exec.valueOf left
        let b ← Exec.valueOf right
        Exec.lift (op.apply a b) : Exec σ Value) (do
        let a ← Exec.valueOf left
        let b ← Exec.valueOf right
        Exec.lift (op.apply a b)) :=
      h.bind (h.valueOf left) fun a => h.bind (h.valueOf right) fun b =>
        h.twins (.lift fun _ => isOverTypes_of_binary)
    -- One operator asks for a module before anything else.
    by_cases hmember : op = .member
    · simp only [if_pos hmember]
      exact h.bind (h.moduleOf left) fun _ => hvalues
    · simp only [if_neg hmember]
      exact hvalues

theorem accessor : R (Machine.accessor evaluate) (Machine.accessor evaluate') :=
  h.bind he fun operand => h.bind (h.moduleOf operand) fun _ => h.inScope he

theorem expression {call : Exec σ Value} {call' : Exec σ' Value} (hc : R call call') :
    R (Machine.expression m evaluate call)
      (Machine.expression (m.rehosted hosts' c) evaluate' call') := by
  refine h.bind (h.decode .byte) fun code => ?_
  cases ExpressionOp.ofByte? code with
  | none => exact h.fail ⟨by rintro ⟨⟩, by rintro _ ⟨⟩⟩
  | some op =>
    cases op with
    | unary => exact h.bind (h.unary he) fun _ => h.pure _
    | binary => exact h.bind (h.binary he) fun _ => h.pure _
    | group => exact he
    | literal => exact h.bind (h.decode .literal) fun _ => h.pure _
    | «variable» =>
      refine h.bind (h.decode .symbol) fun name => ?_
      exact h.bind (h.resolve name) fun _ => h.pure _
    | call => exact h.bind hc fun _ => h.pure _
    | accessor => exact h.accessor he

theorem callWith {enter : Function → List Value → Exec σ Value}
    {enter' : Function → List Value → Exec σ' Value}
    (henter : ∀ f args, known (.function f) → R (enter f args) (enter' f args)) :
    R (Machine.callWith m enter evaluate)
      (Machine.callWith (m.rehosted hosts' c) enter' evaluate') := by
  refine h.bind (h.decode .symbol) fun callee => h.bind (h.decode (.count 1)) fun number => ?_
  refine h.bind (h.collect (h.evaluateValue he) number) fun args => ?_
  refine h.bind (h.resolve callee) fun cell => h.read fun binding hknown => ?_
  -- What is called has been read of the store, and so it is known.
  cases binding with
  | function f => exact henter f args hknown
  | host name f => exact h.callHost hknown args
  | _ => exact h.fail ⟨by rintro ⟨⟩, by rintro _ ⟨⟩⟩

end Expressions

/-! ## Statements -/

section Statements

variable (h : Correspondence m hosts' c lift known R) {execute : Exec σ Flow}
  {execute' : Exec σ' Flow} {evaluate : Exec σ Operand} {evaluate' : Exec σ' Operand}
include h

section Evaluate

variable (he : R evaluate evaluate')
include he

theorem condition : R (Machine.condition evaluate) (Machine.condition evaluate') :=
  h.bind (h.evaluateValue he) fun _ => h.twins (.lift fun _ => isOverTypes_of_truthy)

theorem print : R (Machine.print m evaluate) (Machine.print (m.rehosted hosts' c) evaluate') := by
  refine h.bind he fun operand => ?_
  have hline : ∀ line, R (do
      Machine.emitLine m line
      return .normal : Exec σ Flow) (do
      Machine.emitLine (m.rehosted hosts' c) line
      return .normal) := fun line =>
    h.bind (h.emitLine line) fun _ => h.pure _
  cases operand with
  | value v => exact hline _
  | cell cell =>
    refine h.read fun b _ => ?_
    rw [b.render_mapHost]
    exact hline _

theorem declare :
    R (Machine.declare m evaluate) (Machine.declare (m.rehosted hosts' c) evaluate') := by
  refine h.bind (h.decode .byte) fun flag => h.bind (h.decode .symbol) fun name => ?_
  refine h.bind (h.evaluateOptional he) fun value => ?_
  exact h.bind (h.bindHere name (h.inert trivial)) fun _ => h.pure _

theorem assign :
    R (Machine.assign m evaluate) (Machine.assign (m.rehosted hosts' c) evaluate') := by
  have hwrite : ∀ cell, R (do
      let value ← Machine.evaluateValue evaluate
      modify fun s => { s with store := s.store.write cell (.variable false value) }
      return .normal : Exec σ Flow) (do
      let value ← Machine.evaluateValue evaluate'
      modify fun s => { s with store := s.store.write cell (.variable false value) }
      return .normal) := fun cell =>
    h.bind (h.evaluateValue he) fun value => h.bind (h.twins (.write cell value)) fun _ => h.pure _
  refine h.bind (h.decode .symbol) fun name => h.bind (h.resolve name) fun cell => ?_
  refine h.read fun binding _ => ?_
  -- Behind a failure the write stands, but it is never reached.
  cases binding with
  | «variable» constant value =>
    cases constant with
    | true => exact h.bind (h.fail ⟨by rintro ⟨⟩, by rintro _ ⟨⟩⟩) fun _ => hwrite cell
    | false => exact hwrite cell
  | _ => exact h.bind (h.fail ⟨by rintro ⟨⟩, by rintro _ ⟨⟩⟩) fun _ => hwrite cell

theorem returnValue :
    R (Machine.returnValue m evaluate) (Machine.returnValue (m.rehosted hosts' c) evaluate') :=
  h.bind (h.evaluateOptional he) fun _ => h.pure _

end Evaluate

theorem declareClass (hclass : ∀ info : ClassInfo, known (.classInfo info)) :
    R (Machine.declareClass m : Exec σ Flow) (Machine.declareClass (m.rehosted hosts' c)) := by
  rw [declareClass_eq, declareClass_eq]
  refine h.bind (h.decode .symbol) fun name => h.bind (h.decode .members) fun fields => ?_
  refine h.bind (h.decode .members) fun methods => h.bind (h.twins .scope) fun closure => ?_
  refine h.bind (h.qualify name) fun _ => ?_
  exact h.bind (h.bindHere name (hclass _)) fun _ => h.pure _

theorem bindHost (source target : Symbol) :
    R (Machine.bindHost m source target)
      (Machine.bindHost (m.rehosted hosts' c) source target) := by
  rw [Machine.bindHost, Machine.bindHost]
  cases m.program.names.get? source with
  | none => exact h.fail ⟨by rintro ⟨⟩, by rintro _ ⟨⟩⟩
  | some name =>
    have hsame := h.hosts name
    cases hfind : m.hosts.get? name with
    | none =>
      rw [hfind] at hsame
      simp only [hfind, hsame]
      exact h.fail ⟨by rintro ⟨⟩, by rintro _ ⟨⟩⟩
    | some f =>
      rw [hfind] at hsame
      simp only [hfind, hsame]
      refine h.bind (h.qualify target) fun qualified => ?_
      -- Only here is a host function bound, and it is a registered one.
      exact h.bind (h.bindHere target (h.registered hfind qualified)) fun _ => h.pure _

theorem importHost :
    R (Machine.importHost m : Exec σ Flow) (Machine.importHost (m.rehosted hosts' c)) := by
  rw [importHost_eq, importHost_eq]
  refine h.bind (h.decode .symbol) fun source => h.bind (h.decode .present) fun there => ?_
  cases there with
  | false => exact h.bindHost source source
  | true => exact h.bind (h.decode .symbol) fun target => h.bindHost source target

section Execute

variable (hx : R execute execute')
include hx

theorem executeOptional :
    R (Machine.executeOptional m execute)
      (Machine.executeOptional (m.rehosted hosts' c) execute') := by
  refine h.bind (h.decode .present) fun there => ?_
  cases there with
  | false => exact h.pure _
  | true => exact hx

theorem block : R (Machine.block m execute) (Machine.block (m.rehosted hosts' c) execute') :=
  h.bind (h.decode (.count 1)) fun number => h.bind h.openScope fun _ =>
    h.inScope (h.sequence hx number)

theorem loopStep :
    R (Machine.loopStep m execute) (Machine.loopStep (m.rehosted hosts' c) execute') := by
  refine h.bind h.position fun start => h.bind (h.executeOptional hx) fun flow => ?_
  cases flow with
  | normal | returnValue => exact h.pure _
  | breakLoop =>
    exact h.bind (h.seek start) fun _ => h.bind (h.decode .passOptionalStatement) fun _ =>
      h.pure _

variable (he : R evaluate evaluate')
include he

theorem branch :
    R (Machine.branch m execute evaluate)
      (Machine.branch (m.rehosted hosts' c) execute' evaluate') := by
  refine h.bind (h.condition he) fun holds => ?_
  cases holds with
  | true =>
    refine h.bind hx fun flow => ?_
    cases flow with
    | normal => exact h.bind (h.decode .passOptionalStatement) fun _ => h.pure _
    | breakLoop | returnValue => exact h.pure _
  -- The statement that is not chosen is passed over, which no limit counts.
  | false => exact h.bind (h.decode .passStatement) fun _ => h.executeOptional hx

theorem loopTurn (start : Nat) :
    R (Machine.loopTurn m execute evaluate start)
      (Machine.loopTurn (m.rehosted hosts' c) execute' evaluate' start) := by
  refine h.bind (h.seek start) fun _ => h.bind (h.condition he) fun holds => ?_
  cases holds with
  | true =>
    refine h.bind h.position fun body => h.bind hx fun flow => ?_
    cases flow with
    | normal =>
      refine h.bind (h.loopStep hx) fun flow => ?_
      cases flow with
      | normal | breakLoop | returnValue => exact h.pure _
    | breakLoop =>
      -- The body is passed over from its beginning, for it may have been left anywhere.
      refine h.bind (h.seek body) fun _ => h.bind (h.decode .passStatement) fun _ => ?_
      refine h.bind (h.loopStep hx) fun flow => ?_
      cases flow with
      | normal | breakLoop | returnValue => exact h.pure _
    | returnValue => exact h.pure _
  | false =>
    exact h.bind (h.decode .passStatement) fun _ =>
      h.bind (h.decode .passOptionalStatement) fun _ => h.pure _

/-- Loops are related where repeated turns are. -/
theorem loop {turns turns' : Nat}
    (hiterate : ∀ {turn : Exec σ (Option Flow)} {turn' : Exec σ' (Option Flow)}, R turn turn' →
      R (Exec.iterate turn turns) (Exec.iterate turn' turns')) :
    R (Machine.loop m execute evaluate turns)
      (Machine.loop (m.rehosted hosts' c) execute' evaluate' turns') := by
  refine h.bind h.openScope fun scope => h.inScope ?_
  refine h.bind (h.executeOptional hx) fun flow => ?_
  cases flow with
  | normal => exact h.bind h.position fun start => hiterate (h.loopTurn hx he start)
  | breakLoop | returnValue => exact h.pure _

end Execute

end Statements

end Correspondence

namespace FullCorrespondence

variable {m : Setup σ} {hosts' : Registry σ'} {c : Config}
  {lift : HostFunction σ → HostFunction σ'} {known : Binding σ → Prop}
  {R : {α : Type} → Exec σ α → Exec σ' α → Prop} (h : FullCorrespondence m hosts' c lift known R)
  {execute : Exec σ Flow} {execute' : Exec σ' Flow}
include h

theorem declareFunction :
    R (Machine.declareFunction m : Exec σ Flow)
      (Machine.declareFunction (m.rehosted hosts' c)) := by
  refine h.bind (h.decode .symbol) fun name => h.bind (h.decode (.count 4)) fun number => ?_
  refine h.bind h.openScope fun closure => ?_
  refine h.bind (h.collect ?_ number) fun params => ?_
  · refine h.bind (h.decode .symbol) fun param => ?_
    exact h.bind (h.twins (.bindIn closure param (h.inert trivial))) fun _ => h.pure _
  · refine h.bind h.position fun body => h.bind (h.decode .passStatement) fun _ => ?_
    refine h.bind (h.qualify name) fun qualified => ?_
    exact h.bind (h.bindHere name (h.function _)) fun _ => h.pure _

section Execute

variable (hx : R execute execute')
include hx

theorem moduleMembers :
    R (Machine.moduleMembers m execute)
      (Machine.moduleMembers (m.rehosted hosts' c) execute') := by
  refine h.bind (h.decode (.count 1)) fun number => h.bind (h.sequence hx number) fun flow => ?_
  cases flow with
  | normal => exact h.pure _
  | breakLoop | returnValue => exact h.stray _

theorem declareModule :
    R (Machine.declareModule m execute)
      (Machine.declareModule (m.rehosted hosts' c) execute') := by
  refine h.bind (h.decode .symbol) fun name => h.bind h.openScope fun scope => ?_
  have hmembers := h.moduleMembers hx
  refine h.bind (h.inModule (h.inScope (h.bind hmembers fun _ => hmembers))) fun _ => ?_
  refine h.bind (h.qualify name) fun _ => ?_
  exact h.bind (h.bindHere name (h.inert trivial)) fun _ => h.pure _

/-- All statements are related where calls and repeated turns are, and the declaration of a class if
it is the statement. -/
theorem statementWith {evaluate : Exec σ Operand} {evaluate' : Exec σ' Operand}
    (he : R evaluate evaluate') {call : Exec σ Value} {call' : Exec σ' Value} (hc : R call call')
    {turns turns' : Nat}
    (hiterate : ∀ {turn : Exec σ (Option Flow)} {turn' : Exec σ' (Option Flow)}, R turn turn' →
      R (Exec.iterate turn turns) (Exec.iterate turn' turns')) (op : StatementOp)
    (hclass : op = .classDecl →
      R (Machine.declareClass m : Exec σ Flow) (Machine.declareClass (m.rehosted hosts' c))) :
    R (Machine.statementWith m call execute evaluate turns op)
      (Machine.statementWith (m.rehosted hosts' c) call' execute' evaluate' turns' op) := by
  cases op with
  | print => exact h.print he
  | branch => exact h.branch hx he
  | block => exact h.block hx
  | declare => exact h.declare he
  | assign => exact h.assign he
  | loop => exact h.loop hx he hiterate
  | breakLoop => exact h.pure _
  | function => exact h.declareFunction
  | call => exact h.bind hc fun _ => h.pure _
  | returnValue => exact h.returnValue he
  | classDecl => exact hclass rfl
  | module => exact h.declareModule hx
  | importHost => exact h.importHost
  | reserved => exact h.fail ⟨by rintro ⟨⟩, by rintro _ ⟨⟩⟩

end Execute

end FullCorrespondence

end Machine

end Bytewalk
