import Bytewalk.Proofs.Machine.Watches
import Bytewalk.Proofs.Tree.AlignedRuns
import Bytewalk.Proofs.Tree.RunSimulation

/-!
# Guards

What a watch is for the machine is a guard for the evaluator of trees: it is evaluated before every
statement and may fail. The machine under a failing watch simulates the evaluator with a guard, and
a guard makes no difference if it passes at every site. So what holds in all states in which a
statement begins at a site holds whenever a statement begins: `Scene.always_at_sites`.
-/

namespace Bytewalk

/-- There are other causes than this one. -/
theorem Cause.exists_ne (cause : Cause) : ∃ other : Cause, cause ≠ other := by
  by_cases h : cause = .unknownSymbol ""
  · exact ⟨.duplicateSymbol "", by rw [h]; nofun⟩
  · exact ⟨_, h⟩

namespace Tree

variable {σ α : Type}

/-! ## Guarded evaluation -/

section Guarded

variable (t : Setup σ) (guard : Context → Address → Eval σ Unit)

mutual

/-- Executes a statement behind a guard with so many steps. -/
def executeGuarded : Nat → Context → Address → Stmt → Eval σ Flow
  | 0, _, _, _ => Eval.exhaust
  | n + 1, ctx, a, s => do
    guard ctx a
    statement t (executeGuarded n) (evaluateGuarded n) n ctx a s

/-- Evaluates an expression with so many steps, and the statements that it calls behind guards. -/
def evaluateGuarded : Nat → Context → Expr → Eval σ Operand
  | 0, _, _ => Eval.exhaust
  | n + 1, ctx, e => expression t (executeGuarded n) (evaluateGuarded n) ctx e

end

end Guarded

/-! ## Alignments of a setup with itself -/

namespace Alignment

/-- The alignment of a setup with itself that renames nothing. -/
def ofSites (t : Setup σ) (site : List Symbol → Address → Stmt → Prop)
    (child : ∀ {modules a s edge c}, site modules a s → child? s edge = some c →
      site (modules ++ s.opens) (a.child edge) c) : Alignment σ where
  rename := id
  injective := Function.injective_id
  here := t
  there := t
  hosts := rfl
  config := rfl
  known _ := True
  spelled _ _ := ⟨rfl, fun _ => rfl⟩
  site := site
  symbols _ _ _ := trivial
  child := child

variable {t : Setup σ} {site : List Symbol → Address → Stmt → Prop}
  {child : ∀ {modules a s edge c}, site modules a s → child? s edge = some c →
    site (modules ++ s.opens) (a.child edge) c}

/-- Aligned with itself, an evaluation ends in the same way. -/
theorem Ends.eq_of_sites {x y : EStateM.Result Stop (World σ) α}
    (h : (ofSites t site child).Ends Eq x y) : x = y := by
  cases h with
  | @ok a b w hw hrel =>
    cases hrel
    exact congrArg (EStateM.Result.ok a) w.rename_id.symm
  | @error stop w hw => exact congrArg (EStateM.Result.error stop) w.rename_id.symm

/-- Where a guard passes at every site, it makes no difference. -/
theorem aligned_guarded {guard : Context → Address → Eval σ Unit}
    (hpasses : ∀ ctx a s w, site ctx.modules a s → (ofSites t site child).Sound w →
      guard ctx a w = .ok () w) (n : Nat) :
    (ofSites t site child).Executes (executeGuarded t guard n) (execute t n) ∧
      (ofSites t site child).Evaluates (evaluateGuarded t guard n) (evaluate t n) := by
  induction n with
  | zero => exact ⟨fun _ _ _ _ => .exhaust, fun _ _ _ => .exhaust⟩
  | succ n ih =>
    obtain ⟨hexec, heval⟩ := ih
    refine ⟨fun ctx a s hsite => ?_, fun ctx e he => aligned_expression ctx heval hexec he⟩
    have hstatement := aligned_statement hexec heval hsite n
    rw [Aligned] at hstatement ⊢
    intro w hw
    rw [executeGuarded, bind_of_ok (hpasses ctx a s w hsite hw)]
    exact hstatement w hw

/-- A guarded run of a program at whose statements there are sites is the run. -/
theorem topLevelWithin_guarded {guard : Context → Address → Eval σ Unit}
    (hpasses : ∀ ctx a s w, site ctx.modules a s → (ofSites t site child).Sound w →
      guard ctx a w = .ok () w) {program : List Stmt}
    (h : ∀ i s, program[i]? = some s → site [] { index := i } s) (steps : Nat) (host : σ) :
    topLevelWithin (executeGuarded t guard steps .root) steps
        (located (fun i => { index := i }) program) (World.initial host) =
      topLevelWithin (execute t steps .root) steps
        (located (fun i => { index := i }) program) (World.initial host) := by
  have hends := ends_topLevelWithin (aligned_guarded hpasses steps).1 h steps host
  have hprogram : Stmt.renameAll (ofSites t site child).rename program = program :=
    Stmt.renameAll_id program
  rw [hprogram] at hends
  exact hends.eq_of_sites

end Alignment

/-! ## Guards for watches -/

/-- There is a cause of which an evaluation has not failed. -/
theorem exists_other_cause (result : EStateM.Result Stop (World σ) α) :
    ∃ cause, ∀ f w, result = .error (.failed f) w → f.cause ≠ cause := by
  cases result with
  | ok _ w => exact ⟨.internal "", nofun⟩
  | error stop w =>
    cases stop with
    | exhausted => exact ⟨.internal "", nofun⟩
    | failed f =>
      obtain ⟨other, hother⟩ := f.cause.exists_ne
      refine ⟨other, ?_⟩
      rintro _ _ ⟨⟩
      exact hother

namespace Scene

variable (c : Scene σ) (P : State σ → Prop) (cause : Cause)

open Classical in
/-- The guard that fails with the cause if the state in which a statement begins has not the
property. -/
noncomputable def guard (ctx : Context) (a : Address) : Eval σ Unit := fun w =>
  if P (c.state ctx (offset c.program a) w) then .ok () w else Eval.fail cause w

/-- The machine under a watch simulates the evaluator with a guard. -/
theorem watched_simulates (n : Nat) : ∀ around,
    c.Executes
        (Machine.executeWatched c.setup
          (.failing (fun b _ => b.kind = .statement → P b.state) cause) n around)
        (executeGuarded c.trees (c.guard P cause) n) ∧
      c.Evaluates
        (Machine.evaluateWatched c.setup
          (.failing (fun b _ => b.kind = .statement → P b.state) cause) n around)
        (evaluateGuarded c.trees (c.guard P cause) n) := by
  induction n with
  | zero =>
    intro around
    rw [Machine.executeWatched_zero, Machine.evaluateWatched_zero]
    exact ⟨fun _ _ _ _ => .exhaust, fun _ _ _ _ _ => .exhaust⟩
  | succ n ih =>
    refine fun around => ⟨fun ctx a s h => ?_, fun ctx p e hbytes he => ?_⟩
    · rw [Simulates]
      intro w hw
      rw [Machine.executeWatched_succ, Watch.guard, executeGuarded]
      by_cases hP : P (c.state ctx (offset c.program a) w)
      · obtain ⟨hexec, heval⟩ := ih (⟨.statement, c.state ctx (offset c.program a) w⟩ :: around)
        have hstatement : Simulates c ctx _ _ _ _ := simulates_statement hexec heval n h
        rw [Simulates] at hstatement
        rw [Watch.failing_of_holds fun _ => hP, bind_of_ok (a := ()) (t := w) (if_pos hP)]
        exact hstatement w hw
      · have hfails : c.guard P cause ctx a w = Eval.fail cause w := if_neg hP
        rw [Watch.failing_of_not fun h => hP (h rfl), bind_of_error hfails]
        exact .error (.failed rfl .none rfl)
    · rw [Simulates]
      intro w hw
      obtain ⟨hexec, heval⟩ := ih (⟨.expression, c.state ctx p w⟩ :: around)
      have hexpression : Simulates c ctx _ _ _ _ := simulates_expression hexec heval he hbytes
      rw [Simulates] at hexpression
      rw [Machine.evaluateWatched_succ, Watch.guard, Watch.failing_of_holds fun h => by cases h]
      exact hexpression w hw

variable {P}

/-- What holds of the states that stand for sound worlds at sites holds whenever a statement
begins, if there is a site at every statement of the program. -/
theorem always_at_sites (hend : codeStart + (Stmt.encodeAll c.program).length =
      c.setup.program.codeEnd) {site : List Symbol → Address → Stmt → Prop}
    {child : ∀ {modules a s edge d}, site modules a s → child? s edge = some d →
      site (modules ++ s.opens) (a.child edge) d}
    (hsites : ∀ i s, (Stmt.normalizeAll c.program)[i]? = some s → site [] { index := i } s)
    (hP : ∀ ctx a s w, site ctx.modules a s → (Alignment.ofSites c.trees site child).Sound w →
      P (c.state ctx (offset c.program a) w)) (host : σ) :
    c.setup.Always (fun b _ => b.kind = .statement → P b.state)
      (.initial c.output c.echoed host) := by
  refine Setup.always_of_failing fun steps => ?_
  let items := located (fun i => { index := i }) (Stmt.normalizeAll c.program)
  obtain ⟨cause, hcause⟩ := exists_other_cause
    (topLevelWithin (execute c.trees steps .root) steps items (World.initial host))
  -- A guard that fails of this cause is told apart from the run.
  refine ⟨cause, fun e t hfails => ?_⟩
  have hpasses : ∀ ctx a s w, site ctx.modules a s →
      (Alignment.ofSites c.trees site child).Sound w → c.guard P cause ctx a w = .ok () w :=
    fun ctx a s w hsite hw => if_pos (hP ctx a s w hsite hw)
  have hguarded := Alignment.topLevelWithin_guarded hpasses hsites steps host
  have houtcomes := c.outcomes_topLevel (c.watched_simulates P cause steps []).1 hend steps host
  rw [Setup.runWatched] at hfails
  rw [hfails, hguarded] at houtcomes
  generalize hrun : topLevelWithin (execute c.trees steps .root) steps _ _ = evaluation
    at houtcomes
  cases houtcomes with
  | error hfits =>
    cases hfits with
    | failed hsame =>
      rw [hsame]
      exact hcause _ _ hrun

end Scene

end Tree

end Bytewalk
