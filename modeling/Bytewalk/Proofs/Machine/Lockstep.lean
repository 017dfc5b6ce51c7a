import Bytewalk.Proofs.Machine.Correspondence

/-!
# Machines in lockstep

Two machines that run the same program and whose executions are related statement by statement. A
full correspondence takes calls, the counting of statements and the context of errors as they come;
a lockstep relates them too, and then whole statements, expressions and runs are related, as far as
declarations of classes are: `Lockstep.execute_evaluate` and `Lockstep.run`.
-/

namespace Bytewalk

variable {σ σ' α β : Type}

namespace Machine

/-! ## Executions in other words -/

/-- An execution, unless as many calls are open as may be. -/
def withinDepth (m : Setup σ) (body : Exec σ α) : Exec σ α := fun s =>
  if m.config.maxCallDepth ≤ s.depth then
    Exec.fail (.limitExceeded (.callDepth m.config.maxCallDepth)) s
  else body s

/-- A call checks the number of arguments, then the open calls. -/
theorem invoke_eq (m : Setup σ) (execute : Exec σ Flow) (f : Function) (args : List Value) :
    invoke m execute f args =
      if args.length = f.params.length then
        withinDepth m (openFrame m f args >>= enter m execute f)
      else
        Exec.fail (.arityMismatch (f.name.render m.program.names) (toString f.params.length)
          args.length) := by
  funext s
  by_cases hlength : args.length = f.params.length
  · rw [if_pos hlength, withinDepth]
    split
    · rename_i hdepth
      exact invoke_of_depth_le hlength hdepth
    · rename_i hdepth
      exact invoke_of_depth_lt hlength (Nat.not_le.1 hdepth)
  · rw [if_neg hlength]
    exact invoke_of_length_ne hlength

/-- A statement with one step more. -/
theorem execute_succ (m : Setup σ) (n : Nat) :
    execute m (n + 1) = statement m (execute m n) (evaluate m n) n := by
  funext s
  rw [execute]

/-- An expression with one step more. -/
theorem evaluate_succ (m : Setup σ) (n : Nat) :
    evaluate m (n + 1) = expression m (evaluate m n) (call m (execute m n) (evaluate m n)) := by
  funext s
  rw [evaluate]

/-- The statement that begins at an offset, and those behind it. -/
def afterStart (m : Setup σ) (execute : Exec σ Flow) (n start : Nat) : Exec σ Unit := do
  match ← execute with
  | .normal => topLevel m execute n
  | flow => Exec.mapError (·.atOffset start) (Exec.fail flow.stray)

/-- Without steps a run comes to its end only where its code does. -/
theorem topLevel_zero (m : Setup σ) (execute : Exec σ Flow) :
    topLevel m execute 0 = (do
      let start ← Exec.position
      if start < m.program.codeEnd then Exec.exhaust else Pure.pure ()) := by
  funext s
  rw [topLevel, bind_of_ok (Exec.position_eq s)]
  split <;> rfl

/-- A run executes one statement after the other up to the end of the code. -/
theorem topLevel_succ (m : Setup σ) (execute : Exec σ Flow) (n : Nat) :
    topLevel m execute (n + 1) = (do
      let start ← Exec.position
      if start < m.program.codeEnd then afterStart m execute n start else Pure.pure ()) := by
  funext s
  rw [topLevel, bind_of_ok (Exec.position_eq s)]
  by_cases hstart : s.position < m.program.codeEnd
  · simp only [hstart, ↓reduceIte, afterStart]
    cases hs : execute s with
    | error stop t => rw [bind_of_error hs]
    | ok flow t =>
      rw [bind_of_ok hs]
      cases flow <;> rfl
  · simp only [hstart, ↓reduceIte]
    rfl

/-! ## Lockstep -/

/-- A full correspondence that relates calls and statements as well. -/
structure Lockstep (m : Setup σ) (hosts' : Registry σ') (c : Config)
    (lift : HostFunction σ → HostFunction σ') (known : Binding σ → Prop)
    (R : {α : Type} → Exec σ α → Exec σ' α → Prop) : Prop
    extends FullCorrespondence m hosts' c lift known R where
  /-- Errors change without their causes. -/
  mapError {α : Type} {f : Error → Error} {x : Exec σ α} {x' : Exec σ' α}
    (hf : ∀ e, (f e).cause = e.cause) (h : R x x') : R (Exec.mapError f x) (Exec.mapError f x')
  /-- Executions in a call. -/
  inCall {α : Type} {entry : Nat} {scope : Scope} {modules : List Symbol} {x : Exec σ α}
    {x' : Exec σ' α} (h : R x x') :
    R (Exec.inCall entry scope modules x) (Exec.inCall entry scope modules x')
  /-- The check of the open calls. -/
  withinDepth {α : Type} {x : Exec σ α} {x' : Exec σ' α} (h : R x x') :
    R (withinDepth m x) (Machine.withinDepth (m.rehosted hosts' c) x')
  /-- Counting a statement. -/
  countStatement : R (countStatement m) (countStatement (m.rehosted hosts' c))

/-- One execution is given `n` steps and the other one `n'`: as many, or more if the relation bears
that the first one is cut short. -/
def MoreSteps (R : {α : Type} → Exec σ α → Exec σ' α → Prop) (n n' : Nat) : Prop :=
  n = n' ∨ n ≤ n' ∧ ∀ {α : Type} {x : Exec σ α} {x' : Exec σ' α}, R x x' → R Exec.exhaust x'

namespace MoreSteps

variable {R : {α : Type} → Exec σ α → Exec σ' α → Prop} {n n' : Nat}

theorem refl (n : Nat) : MoreSteps R n n :=
  .inl rfl

theorem eq_zero (h : MoreSteps R n 0) : n = 0 := by
  rcases h with heq | ⟨hle, -⟩
  · exact heq
  · exact Nat.le_zero.1 hle

theorem pred (h : MoreSteps R (n + 1) (n' + 1)) : MoreSteps R n n' := by
  rcases h with heq | ⟨hle, hcut⟩
  · exact .inl (Nat.succ.inj heq)
  · exact .inr ⟨Nat.le_of_succ_le_succ hle, hcut⟩

/-- Without steps the first execution is cut short. -/
theorem cut (h : MoreSteps R 0 (n' + 1)) {x : Exec σ α} {x' : Exec σ' α} (hx : R x x') :
    R Exec.exhaust x' := by
  rcases h with heq | ⟨-, hcut⟩
  · cases heq
  · exact hcut hx

end MoreSteps

namespace Lockstep

variable {m : Setup σ} {hosts' : Registry σ'} {c : Config}
  {lift : HostFunction σ → HostFunction σ'} {known : Binding σ → Prop}
  {R : {α : Type} → Exec σ α → Exec σ' α → Prop}

variable (h : Lockstep m hosts' c lift known R)
include h

theorem exhaust : R (Exec.exhaust : Exec σ α) Exec.exhaust :=
  h.twins .exhaust

theorem iterate {turn : Exec σ (Option α)} {turn' : Exec σ' (Option α)} {n n' : Nat}
    (hn : MoreSteps R n n') (hturn : R turn turn') :
    R (Exec.iterate turn n) (Exec.iterate turn' n') := by
  induction n' generalizing n with
  | zero =>
    obtain rfl : n = 0 := hn.eq_zero
    exact h.exhaust
  | succ n' ih =>
    -- Against itself the second loop may make as many turns as it is given.
    have hstep : ∀ {k : Nat}, MoreSteps R k n' →
        R (Exec.iterate turn (k + 1)) (Exec.iterate turn' (n' + 1)) := by
      intro k hk
      rw [Exec.iterate_succ, Exec.iterate_succ]
      refine h.bind hturn fun next => ?_
      cases next with
      | none => exact ih hk
      | some a => exact h.pure a
    cases n with
    | zero => exact hn.cut (hstep (.refl n'))
    | succ n => exact hstep hn.pred

/-! ## Calls and statements -/

section Parts

variable {execute : Exec σ Flow} {execute' : Exec σ' Flow} {evaluate : Exec σ Operand}
  {evaluate' : Exec σ' Operand} {turns turns' : Nat} (hx : R execute execute')
include hx

theorem enter (f : Function) (frame : Scope) :
    R (Machine.enter m execute f frame)
      (Machine.enter (m.rehosted hosts' c) execute' f frame) := by
  refine h.mapError (fun _ => rfl) (h.bind (h.inCall hx) fun flow => ?_)
  cases flow with
  | normal | returnValue => exact h.pure _
  | breakLoop => exact h.stray _

theorem invoke (f : Function) (args : List Value) :
    R (Machine.invoke m execute f args) (Machine.invoke (m.rehosted hosts' c) execute' f args) := by
  rw [invoke_eq, invoke_eq]
  by_cases hlength : args.length = f.params.length
  · simp only [if_pos hlength]
    exact h.withinDepth (h.bind (h.openFrame f args) fun frame => h.enter hx f frame)
  · simp only [if_neg hlength]
    exact h.fail ⟨nofun, nofun⟩

variable (he : R evaluate evaluate')
include he

theorem call :
    R (Machine.call m execute evaluate)
      (Machine.call (m.rehosted hosts' c) execute' evaluate') := by
  have hcall := h.callWith he fun f args _ => h.invoke hx f args
  rwa [callWith_invoke, callWith_invoke] at hcall

theorem statement (hturns : MoreSteps R turns turns')
    (hclass : R (Machine.declareClass m : Exec σ Flow)
      (Machine.declareClass (m.rehosted hosts' c))) :
    R (Machine.statement m execute evaluate turns)
      (Machine.statement (m.rehosted hosts' c) execute' evaluate' turns') := by
  refine h.bind h.position fun start => h.mapError (fun _ => rfl) ?_
  refine h.bind h.countStatement fun _ => h.bind (h.decode .byte) fun code => ?_
  cases StatementOp.ofByte? code with
  | none => exact h.fail ⟨nofun, nofun⟩
  | some op =>
    have hop := h.statementWith hx he (h.call hx he) (h.iterate hturns) op fun _ => hclass
    rwa [statementWith_call, statementWith_call] at hop

end Parts

/-! ## Runs -/

/-- What is related statement by statement is related from the first statement to the last. -/
theorem topLevel {execute : Exec σ Flow} {execute' : Exec σ' Flow} (hx : R execute execute')
    {n n' : Nat} (hn : MoreSteps R n n') :
    R (Machine.topLevel m execute n) (Machine.topLevel (m.rehosted hosts' c) execute' n') := by
  induction n' generalizing n with
  | zero =>
    obtain rfl := hn.eq_zero
    rw [topLevel_zero, topLevel_zero]
    refine h.bind h.position fun start => ?_
    split
    · exact h.exhaust
    · exact h.pure _
  | succ n' ih =>
    have hstep : ∀ {k : Nat}, MoreSteps R k n' → ∀ start : Nat,
        R (afterStart m execute k start)
          (afterStart (m.rehosted hosts' c) execute' n' start) := by
      intro k hk start
      refine h.bind hx fun flow => ?_
      cases flow with
      | normal => exact ih hk
      | breakLoop | returnValue => exact h.mapError (fun _ => rfl) (h.stray _)
    cases n with
    | zero =>
      -- Only if the code goes on does the first run want a step that it does not have.
      rw [topLevel_zero, topLevel_succ]
      refine h.bind h.position fun start => ?_
      by_cases hstart : start < m.program.codeEnd
      · rw [if_pos hstart, if_pos hstart]
        exact hn.cut (hstep (.refl n') start)
      · rw [if_neg hstart, if_neg hstart]
        exact h.pure _
    | succ n =>
      rw [topLevel_succ, topLevel_succ]
      refine h.bind h.position fun start => ?_
      by_cases hstart : start < m.program.codeEnd
      · rw [if_pos hstart, if_pos hstart]
        exact hstep hn.pred start
      · rw [if_neg hstart, if_neg hstart]
        exact h.pure _

section Classes

variable (hclass : R (Machine.declareClass m : Exec σ Flow)
  (Machine.declareClass (m.rehosted hosts' c)))
include hclass

/-- What is related inside is related outside, statements and expressions together. -/
theorem execute_evaluate {n n' : Nat} (hn : MoreSteps R n n') :
    R (Machine.execute m n) (Machine.execute (m.rehosted hosts' c) n') ∧
      R (Machine.evaluate m n) (Machine.evaluate (m.rehosted hosts' c) n') := by
  -- The induction is on the steps of the second execution, which are as many or more. Both halves
  -- go together, since calls execute statements.
  induction n' generalizing n with
  | zero =>
    obtain rfl := hn.eq_zero
    exact ⟨h.exhaust, h.exhaust⟩
  | succ n' ih =>
    have hstep : ∀ {k : Nat}, MoreSteps R k n' →
        R (Machine.execute m (k + 1)) (Machine.execute (m.rehosted hosts' c) (n' + 1)) ∧
          R (Machine.evaluate m (k + 1)) (Machine.evaluate (m.rehosted hosts' c) (n' + 1)) := by
      intro k hk
      obtain ⟨hx, he⟩ := ih hk
      rw [execute_succ, execute_succ, evaluate_succ, evaluate_succ]
      exact ⟨h.statement hx he hk hclass, h.expression he (h.call hx he)⟩
    cases n with
    | zero =>
      -- The first execution has no step left, but is cut short only where a step is related.
      obtain ⟨hx, he⟩ := hstep (.refl n')
      exact ⟨hn.cut hx, hn.cut he⟩
    | succ n => exact hstep hn.pred

/-- Whole runs are related. -/
theorem run {n n' : Nat} (hn : MoreSteps R n n') :
    R (Machine.topLevel m (Machine.execute m n) n)
      (Machine.topLevel (m.rehosted hosts' c) (Machine.execute (m.rehosted hosts' c) n') n') :=
  h.topLevel (h.execute_evaluate hclass hn).1 hn

end Classes

end Lockstep

end Machine

end Bytewalk
