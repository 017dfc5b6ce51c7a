import Bytewalk.Code.Layout
import Bytewalk.Proofs.Machine.Congruence

/-!
# Moments of a run

A moment of a run is where a statement or an expression begins, inside of others that have begun
and not ended. A watch looks at every moment and may stop the run there, for whatever reason. So a
watched run shows what has been done up to a moment, and that a moment does not occur is to say
that a watch for it never stops the run: `Setup.Always` and `Setup.Sometimes`.
-/

namespace Bytewalk

variable {σ : Type}

/-- A statement or an expression that has begun. -/
structure Begun (σ : Type) where
  /-- Whether it is a statement or an expression. -/
  kind : Node
  /-- The state in which it has begun. -/
  state : State σ

/-- What has begun is an assignment, and its symbol stands for the cell. -/
def Begun.Assigns (m : Setup σ) (b : Begun σ) (cell : CellId) : Prop :=
  b.kind = .statement ∧
    StatementOp.ofByte? (m.program.image.byteAt b.state.position) = some .assign ∧
    b.state.store.lookup? b.state.scope ⟨m.program.image.int32At (b.state.position + 1)⟩ =
      some cell

/-- Looks at what begins, and at what has begun around it, innermost first, and may stop the
run. -/
abbrev Watch (σ : Type) := Begun σ → List (Begun σ) → Option Stop

namespace Watch

/-- The watch that never stops a run. -/
def idle : Watch σ :=
  fun _ _ => none

/-- The first watch stops a run at every moment at which the second one does, and maybe before. -/
def Stricter (watch watch' : Watch σ) : Prop :=
  ∀ b around, (watch' b around).isSome → (watch b around).isSome

/-- What begins is executed, unless the watch stops the run. -/
def guard {α : Type} (watch : Watch σ) (b : Begun σ) (around : List (Begun σ)) (x : Exec σ α) :
    EStateM.Result Stop (State σ) α :=
  match watch b around with
  | some stop => .error stop b.state
  | none => x b.state

end Watch

namespace Machine

variable (m : Setup σ) (watch : Watch σ)

mutual

/-- Executes the statement at the position inside of what has begun around, under a watch. -/
def executeWatched : Nat → List (Begun σ) → Exec σ Flow
  | 0, _, s => Exec.exhaust s
  | n + 1, around, s =>
    let b : Begun σ := ⟨.statement, s⟩
    watch.guard b around
      (statement m (executeWatched n (b :: around)) (evaluateWatched n (b :: around)) n)

/-- Evaluates the expression at the position inside of what has begun around, under a watch. -/
def evaluateWatched : Nat → List (Begun σ) → Exec σ Operand
  | 0, _, s => Exec.exhaust s
  | n + 1, around, s =>
    let b : Begun σ := ⟨.expression, s⟩
    watch.guard b around
      (expression m (evaluateWatched n (b :: around))
        (call m (executeWatched n (b :: around)) (evaluateWatched n (b :: around))))

end

/-- Without steps nothing is executed. -/
theorem executeWatched_zero (around : List (Begun σ)) :
    executeWatched m watch 0 around = Exec.exhaust := by
  funext s
  rw [executeWatched]

/-- Without steps nothing is evaluated. -/
theorem evaluateWatched_zero (around : List (Begun σ)) :
    evaluateWatched m watch 0 around = Exec.exhaust := by
  funext s
  rw [evaluateWatched]

/-- A statement with one step more. -/
theorem executeWatched_succ (n : Nat) (around : List (Begun σ)) (s : State σ) :
    executeWatched m watch (n + 1) around s =
      watch.guard ⟨.statement, s⟩ around
        (statement m (executeWatched m watch n (⟨.statement, s⟩ :: around))
          (evaluateWatched m watch n (⟨.statement, s⟩ :: around)) n) := by
  rw [executeWatched]

/-- An expression with one step more. -/
theorem evaluateWatched_succ (n : Nat) (around : List (Begun σ)) (s : State σ) :
    evaluateWatched m watch (n + 1) around s =
      watch.guard ⟨.expression, s⟩ around
        (expression m (evaluateWatched m watch n (⟨.expression, s⟩ :: around))
          (call m (executeWatched m watch n (⟨.expression, s⟩ :: around))
            (evaluateWatched m watch n (⟨.expression, s⟩ :: around)))) := by
  rw [evaluateWatched]

/-- Under an idle watch the whole is executed. -/
theorem watched_idle (n : Nat) :
    ∀ around, executeWatched m .idle n around = execute m n ∧
      evaluateWatched m .idle n around = evaluate m n := by
  induction n with
  | zero => exact fun _ => ⟨rfl, rfl⟩
  | succ n ih =>
    refine fun around => ⟨?_, ?_⟩
    · funext s
      obtain ⟨hexecute, hevaluate⟩ := ih (⟨.statement, s⟩ :: around)
      rw [executeWatched_succ, execute, hexecute, hevaluate]
      rfl
    · funext s
      obtain ⟨hexecute, hevaluate⟩ := ih (⟨.expression, s⟩ :: around)
      rw [evaluateWatched_succ, evaluate, hexecute, hevaluate]
      rfl

end Machine

namespace Setup

variable (m : Setup σ)

/-- Runs the program from a state under a watch. -/
def runWatched (watch : Watch σ) (steps : Nat) (s : State σ) :
    EStateM.Result Stop (State σ) Unit :=
  Machine.topLevel m (Machine.executeWatched m watch steps []) steps s

/-- Under an idle watch the whole is run. -/
theorem runWatched_idle (steps : Nat) (s : State σ) :
    m.runWatched .idle steps s = m.runFrom steps s := by
  rw [runWatched, runFrom, (Machine.watched_idle m steps []).1]

/-- `P` holds at every moment of the run from the state, of what begins and of what has begun
around it: a watch for the moments at which it does not hold never stops the run, whatever the
reason would be. -/
def Always (P : Begun σ → List (Begun σ) → Prop) (s : State σ) : Prop :=
  ∀ watch : Watch σ, (∀ b around, (watch b around).isSome → ¬ P b around) → ∀ steps,
    m.runWatched watch steps s = m.runFrom steps s

/-- What holds always holds at a moment at which a watch has stopped the run. -/
theorem Always.exists_of_ne {P : Begun σ → List (Begun σ) → Prop} {s : State σ}
    (h : m.Always P s) {watch : Watch σ} {steps : Nat}
    (hne : m.runWatched watch steps s ≠ m.runFrom steps s) :
    ∃ b around, (watch b around).isSome ∧ P b around :=
  Classical.byContradiction fun hnone =>
    hne (h watch (fun b around hsome hP => hnone ⟨b, around, hsome, hP⟩) steps)

/-- `P` holds at some moment of the run from the state, of what begins and of what has begun around
it: among the watches for such moments only, there is one that stops the run. -/
def Sometimes (P : Begun σ → List (Begun σ) → Prop) (s : State σ) : Prop :=
  ¬ m.Always (fun b around => ¬ P b around) s

variable {m}

theorem Sometimes.mono {P Q : Begun σ → List (Begun σ) → Prop} {s : State σ}
    (h : m.Sometimes P s) (hPQ : ∀ b around, P b around → Q b around) : m.Sometimes Q s := by
  intro hnever
  refine h fun watch hwatch steps => hnever watch (fun b around hsome hnot => ?_) steps
  exact hwatch b around hsome fun hP => hnot (hPQ b around hP)

end Setup

end Bytewalk
