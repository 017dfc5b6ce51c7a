import Bytewalk.Proofs.Machine.Lockstep

/-!
# Congruences

What the executions of two configurations have in common. A relation between executions is a
congruence if elementary executions are related to themselves, composed ones are related where
their parts are, and so are the three executions that look at the configuration: counting a
statement, printing a line, and the check of the open calls. Two configurations of a machine then go
in lockstep, and so whole statements, expressions and runs are related:
`Congruence.execute_evaluate` and `Congruence.run`.

A relation may say something about the first execution only; then a congruence is a property that
all executions of one configuration have.
-/

namespace Bytewalk

variable {σ α β : Type}

/-- The setup with another configuration. -/
abbrev Setup.withConfig (m : Setup σ) (c : Config) : Setup σ :=
  { m with config := c }

namespace Machine

open Decoder

/-! ## Elementary executions -/

/-- A binding holds no host function but a lent one. -/
def Binds (lent : HostFunction σ → Prop) (binding : Binding σ) : Prop :=
  ∀ name f, binding = .host name f → lent f

/-- A variable or a module is no host function. -/
theorem Binds.of_isInert {lent : HostFunction σ → Prop} {binding : Binding σ}
    (h : binding.IsInert) : Binds lent binding := by
  rintro name f rfl
  exact h.elim

/-- A lent host function may be held. -/
theorem Binds.host {lent : HostFunction σ → Prop} {f : HostFunction σ} (hf : lent f)
    (name : QualifiedName) : Binds lent (.host name f) := by
  rintro _ _ ⟨⟩
  exact hf

/-- The executions that all others are composed of, apart from those that look at the
configuration or run the host. None of them exceeds a limit, and none binds a host function that is
not lent. -/
inductive Elementary (m : Setup σ) (lent : HostFunction σ → Prop) : {α : Type} → Exec σ α → Prop
  | pure {α : Type} (a : α) : Elementary m lent (Pure.pure a)
  | get : Elementary m lent get
  | exhaust {α : Type} : Elementary m lent (Exec.exhaust : Exec σ α)
  | fail {α : Type} {cause : Cause} (h : cause.category ≠ .limit) :
      Elementary m lent (Exec.fail cause : Exec σ α)
  | lift {α : Type} {result : Except Error α} (h : ∀ e, result = .error e → e.category ≠ .limit) :
      Elementary m lent (Exec.lift result)
  | decode {α : Type} {decoder : Decoder α} (h : Reads m.program.image decoder) :
      Elementary m lent (Exec.decode decoder)
  | seek (p : Nat) : Elementary m lent (Exec.seek p)
  | openIn (parent : Scope) : Elementary m lent (Exec.openIn parent)
  | bindIn (names : NameTable) (scope : Scope) (s : Symbol) {binding : Binding σ}
      (h : Binds lent binding) : Elementary m lent (Exec.bindIn names scope s binding)
  | write (cell : CellId) (value : Value) :
      Elementary m lent
        (modify fun s => { s with store := s.store.write cell (.variable false value) })

/-! ## Congruences -/

/-- A relation between the executions of a setup and those of the setup with another configuration
that the composition of executions respects, as far as the host functions in cells are lent ones. -/
structure Congruence (m : Setup σ) (c : Config) (lent : HostFunction σ → Prop)
    (R : {α : Type} → Exec σ α → Exec σ α → Prop) : Prop where
  /-- Registered host functions are lent. -/
  registered {f : HostFunction σ} (hf : f ∈ m.hosts.functions) : lent f
  /-- Elementary executions are related to themselves. -/
  elementary {α : Type} {x : Exec σ α} (h : Elementary m lent x) : R x x
  /-- One execution after the other. -/
  bind {α β : Type} {x x' : Exec σ α} {k k' : α → Exec σ β} (h : R x x')
    (hk : ∀ a, R (k a) (k' a)) : R (x >>= k) (x' >>= k')
  /-- What has been read of the store holds no host function but a lent one. -/
  read {α : Type} {cell : CellId} {k k' : Binding σ → Exec σ α}
    (hk : ∀ b, Binds lent b → R (k b) (k' b)) : R (Exec.read cell >>= k) (Exec.read cell >>= k')
  /-- Errors change without their causes. -/
  mapError {α : Type} {f : Error → Error} {x x' : Exec σ α} (hf : ∀ e, (f e).cause = e.cause)
    (h : R x x') : R (Exec.mapError f x) (Exec.mapError f x')
  /-- Executions in a scope. -/
  inScope {α : Type} {scope : Scope} {x x' : Exec σ α} (h : R x x') :
    R (Exec.inScope scope x) (Exec.inScope scope x')
  /-- Executions in a module. -/
  inModule {α : Type} {name : Symbol} {x x' : Exec σ α} (h : R x x') :
    R (Exec.inModule name x) (Exec.inModule name x')
  /-- Executions in a call. -/
  inCall {α : Type} {entry : Nat} {scope : Scope} {modules : List Symbol} {x x' : Exec σ α}
    (h : R x x') : R (Exec.inCall entry scope modules x) (Exec.inCall entry scope modules x')
  /-- The check of the open calls. -/
  withinDepth {α : Type} {x x' : Exec σ α} (h : R x x') :
    R (withinDepth m x) (Machine.withinDepth (m.withConfig c) x')
  /-- Calls of lent host functions. -/
  callHost {f : HostFunction σ} (hf : lent f) (args : List Value) :
    R (callHost f args) (callHost f args)
  /-- Printing a line. -/
  emitLine (line : String) : R (emitLine m line) (emitLine (m.withConfig c) line)
  /-- Counting a statement. -/
  countStatement : R (countStatement m) (countStatement (m.withConfig c))

namespace Congruence

variable {m : Setup σ} {c : Config} {lent : HostFunction σ → Prop}
  {R : {α : Type} → Exec σ α → Exec σ α → Prop}

variable (h : Congruence m c lent R)
include h

theorem pure (a : α) : R (Pure.pure a : Exec σ α) (Pure.pure a) :=
  h.elementary (.pure a)

theorem fail {cause : Cause} (hcause : cause.category ≠ .limit) :
    R (Exec.fail cause : Exec σ α) (Exec.fail cause) :=
  h.elementary (.fail hcause)

/-- What follows may depend on the state. -/
theorem get {k k' : State σ → Exec σ α} (hk : ∀ s, R (k s) (k' s)) :
    R (MonadState.get >>= k) (MonadState.get >>= k') :=
  h.bind (h.elementary .get) hk

/-- What is looked up in the state may be anything. -/
theorem asks (view : State σ → α) : R (Exec.asks view) (Exec.asks view) :=
  h.get fun s => h.pure (view s)

theorem resolve (names : NameTable) (name : Symbol) :
    R (Exec.resolve names name : Exec σ CellId) (Exec.resolve names name) := by
  refine h.get fun s => h.get fun t => ?_
  cases s.store.lookup? t.scope name with
  | some cell => exact h.pure cell
  | none => exact h.fail nofun

/-- Both machines lend the same host functions, and every elementary execution is its own twin. -/
theorem correspondence : FullCorrespondence m m.hosts c id (Binds lent) R where
  inert := .of_isInert
  registered hf := .host (h.registered (List.mem_of_find?_eq_some hf))
  hosts name := (Option.map_id_apply ..).symm
  twins {α x x'} htwins := by
    cases htwins with
    | pure a => exact h.pure a
    | exhaust => exact h.elementary .exhaust
    | fail hcause => exact h.fail hcause.noLimit
    | lift hover =>
      refine h.elementary (.lift fun e herror => ?_)
      -- An operator fails over types, and so never over a limit.
      rw [Error.category, (hover e herror).category_eq]
      decide
    | decode hreads => exact h.elementary (.decode hreads)
    | seek p => exact h.elementary (.seek p)
    | position | scope => exact h.asks _
    | qualify name => exact h.get fun _ => h.pure _
    | resolve name => exact h.resolve _ name
    | openIn parent => exact h.elementary (.openIn parent)
    | bindIn scope name hlent =>
      rw [Binding.mapHost_id]
      exact h.elementary (.bindIn _ scope name hlent)
    | write cell value => exact h.elementary (.write cell value)
  bind := h.bind
  read hk := h.read fun b hlent => by
    have hrest := hk b hlent
    rwa [Binding.mapHost_id] at hrest
  inScope := h.inScope
  inModule := h.inModule
  callHost hf := h.callHost (hf _ _ rfl)
  emitLine := h.emitLine
  stray _ := h.fail nofun
  function _ := by rintro _ _ ⟨⟩

/-- Declarations of classes are related. -/
theorem declareClass :
    R (Machine.declareClass m : Exec σ Flow) (Machine.declareClass (m.withConfig c)) :=
  h.correspondence.declareClass fun _ => by rintro _ _ ⟨⟩

/-- The machines go in lockstep. -/
theorem lockstep : Lockstep m m.hosts c id (Binds lent) R where
  toFullCorrespondence := h.correspondence
  mapError := h.mapError
  inCall := h.inCall
  withinDepth := h.withinDepth
  countStatement := h.countStatement

/-- Calls are related where statements are. -/
theorem invoke {execute execute' : Exec σ Flow} (hx : R execute execute') (f : Function)
    (args : List Value) :
    R (Machine.invoke m execute f args) (Machine.invoke (m.withConfig c) execute' f args) :=
  h.lockstep.invoke hx f args

/-- Statements and expressions are related. -/
theorem execute_evaluate {n n' : Nat} (hn : MoreSteps R n n') :
    R (Machine.execute m n) (Machine.execute (m.withConfig c) n') ∧
      R (Machine.evaluate m n) (Machine.evaluate (m.withConfig c) n') :=
  h.lockstep.execute_evaluate h.declareClass hn

/-- Whole runs are related. -/
theorem run {n n' : Nat} (hn : MoreSteps R n n') :
    R (Machine.topLevel m (Machine.execute m n) n)
      (Machine.topLevel (m.withConfig c) (Machine.execute (m.withConfig c) n') n') :=
  h.lockstep.run h.declareClass hn

end Congruence

end Machine

end Bytewalk
