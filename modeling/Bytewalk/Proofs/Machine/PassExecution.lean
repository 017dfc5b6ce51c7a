import Mathlib
import Bytewalk.Code.Encoding
import Bytewalk.Proofs.Machine.StatementLayouts

/-!
# Executing and passing over

A run can be interrupted: at every statement and every expression that begins, it may be asked to
stop. This module proves for interrupted runs, and so for all runs:

- `execute_follows`, `evaluate_follows`: what the machine executes follows the layout of what
  stands at the position;
- `pass_of_execute`: a statement that is executed up to its end, and an expression that is
  evaluated, is passed over to the same offset.
-/

namespace Bytewalk

/-! ## Interrupted runs -/

namespace Machine

variable {σ : Type} (m : Setup σ) (halt : State σ → Bool)

mutual

/-- Executes the statement at the position, and stops where a statement or an expression begins in
a state in which the run is to halt. -/
def executeUntil : Nat → Exec σ Flow
  | 0, s => Exec.exhaust s
  | n + 1, s =>
    if halt s then Exec.exhaust s
    else statement m (executeUntil n) (evaluateUntil n) n s

/-- Evaluates the expression at the position, and stops where a statement or an expression begins
in a state in which the run is to halt. -/
def evaluateUntil : Nat → Exec σ Operand
  | 0, s => Exec.exhaust s
  | n + 1, s =>
    if halt s then Exec.exhaust s
    else expression m (evaluateUntil n) (call m (executeUntil n) (evaluateUntil n)) s

end

/-- A run that never halts is the whole run. -/
theorem until_never (n : Nat) :
    executeUntil m (fun _ => false) n = execute m n ∧
      evaluateUntil m (fun _ => false) n = evaluate m n := by
  induction n with
  | zero => exact ⟨rfl, rfl⟩
  | succ n ih =>
    constructor
    · funext s
      rw [executeUntil, execute, ih.1, ih.2]
      rfl
    · funext s
      rw [evaluateUntil, evaluate, ih.1, ih.2]
      rfl

/-! ## Executions follow layouts -/

/-- Stopping for want of steps follows anything. -/
private theorem follows_exhaust {α : Type} {p : Nat} {fields : List Field} {good : α → Prop}
    {s : State σ} : Follows m p fields good (Exec.exhaust : Exec σ α) s := by
  rw [Follows]
  exact ⟨id, fun _ hstop => hstop.elim⟩

/-- Whenever a run is interrupted, its statements follow statements and its expressions follow
expressions. -/
private theorem until_follows (n : Nat) :
    (∀ s : State σ, Follows m s.position [.statement] (· = .normal) (executeUntil m halt n) s) ∧
      ∀ s : State σ,
        Follows m s.position [.expression] (fun _ => True) (evaluateUntil m halt n) s := by
  -- Statements and expressions go together, since calls lead from these to those.
  induction n with
  | zero =>
    refine ⟨fun s => .of_eq (follows_exhaust m) ?_ id, fun s => .of_eq (follows_exhaust m) ?_ id⟩
    · rw [executeUntil]
    · rw [evaluateUntil]
  | succ n ih =>
    obtain ⟨hexec, heval⟩ := ih
    constructor
    · intro s
      by_cases hhalt : halt s
      · refine .of_eq (follows_exhaust m) ?_ id
        rw [executeUntil, if_pos hhalt]
      · refine .of_eq (follows_statement hexec heval n s) ?_ id
        rw [executeUntil, if_neg hhalt]
    · intro s
      by_cases hhalt : halt s
      · refine .of_eq (follows_exhaust m) ?_ id
        rw [evaluateUntil, if_pos hhalt]
      · refine .of_eq (follows_expression heval (follows_call hexec heval) s) ?_ id
        rw [evaluateUntil, if_neg hhalt]

/-- A statement is executed along a statement, also when the run is interrupted. -/
theorem execute_follows (n : Nat) (s : State σ) :
    Follows m s.position [.statement] (· = .normal) (executeUntil m halt n) s :=
  (until_follows m halt n).1 s

/-- An expression is evaluated along an expression, also when the run is interrupted. -/
theorem evaluate_follows (n : Nat) (s : State σ) :
    Follows m s.position [.expression] (fun _ => True) (evaluateUntil m halt n) s :=
  (until_follows m halt n).2 s

/-- A statement is executed along a statement. -/
theorem follows_execute (m : Setup σ) (n : Nat) (s : State σ) :
    Follows m s.position [.statement] (· = .normal) (execute m n) s :=
  (until_never m n).1 ▸ execute_follows m (fun _ => false) n s

/-- An expression is evaluated along an expression. -/
theorem follows_evaluate (m : Setup σ) (n : Nat) (s : State σ) :
    Follows m s.position [.expression] (fun _ => True) (evaluate m n) s :=
  (until_never m n).2 ▸ evaluate_follows m (fun _ => false) n s

end Machine

/-! ## Executing takes the bytes that passing over takes -/

variable {σ : Type}

/-- An execution that follows fields and yields something good ends behind the fields. -/
theorem Follows.passes {α : Type} {m : Setup σ} {p : Nat} {fields : List Field} {good : α → Prop}
    {x : Exec σ α} {s t : State σ} {a : α} (h : Follows m p fields good x s) (hx : x s = .ok a t)
    (ha : good a) : Passes m.program.image fields p t.position := by
  rw [Follows, hx] at h
  exact h.2 ha

/-- On every image and from every state, a statement that is executed up to its end is passed over
to the offset at which the execution ends, and so is an expression that is evaluated: whichever
branches are taken, whatever ends a loop and whatever is called on the way. -/
theorem pass_of_execute (m : Setup σ) (n : Nat) (s t : State σ) :
    (Machine.execute m n s = .ok .normal t →
      Decoder.passStatement m.program.image s.position = .ok () t.position) ∧
    ∀ operand, Machine.evaluate m n s = .ok operand t →
      Decoder.passExpression m.program.image s.position = .ok () t.position := by
  obtain ⟨hexecute, hevaluate⟩ := Machine.until_never m n
  refine ⟨fun hrun => ?_, fun operand hrun => ?_⟩
  · rw [← hexecute] at hrun
    exact passStatement_eq_ok.2 ((Machine.execute_follows m _ n s).passes hrun rfl)
  · rw [← hevaluate] at hrun
    exact passExpression_eq_ok.2 ((Machine.evaluate_follows m _ n s).passes hrun trivial)

/-- A setup whose code is one statement. -/
def Setup.ofStatement (statement : Stmt) : Setup Unit where
  program := {
    image := (List.replicate codeStart 0 ++ statement.encode).toArray
    codeEnd := codeStart + statement.encode.length
    names := {} }
  hosts := {}
  config := {}

/-- A loop that its body leaves out of a branch. -/
def Stmt.breakingLoop : Stmt :=
  .loop none (.literal (.bool true)) (.branch (.literal (.bool true)) .breakLoop none) none

/-- The loop and its condition are passed over to where their execution ends. -/
theorem pass_breakingLoop :
    let m := Setup.ofStatement .breakingLoop
    let s := State.initial #[] #[] ()
    let condition := { s with position := 6 }
    (∃ t, Machine.execute m 9 s = .ok .normal t ∧
      Decoder.passStatement m.program.image codeStart = .ok () t.position) ∧
    ∃ t, Machine.evaluate m 9 condition = .ok (.value (.bool true)) t ∧
      Decoder.passExpression m.program.image 6 = .ok () t.position := by
  intro m s condition
  have hloop : Machine.execute m 9 s =
      .ok .normal { s with position := 16, executed := 3, store := { frames := #[[], []] } } := by
    cbv
  have hcondition : Machine.evaluate m 9 condition =
      .ok (.value (.bool true)) { condition with position := 9 } := by
    cbv
  exact ⟨⟨_, hloop, (pass_of_execute m 9 s _).1 hloop⟩,
    ⟨_, hcondition, (pass_of_execute m 9 condition _).2 _ hcondition⟩⟩

end Bytewalk
