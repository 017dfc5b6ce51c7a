import Bytewalk.Proofs.Machine.PassExecution
import Bytewalk.Proofs.Machine.RunOrder

/-!
# Stable bindings

What has been bound in a run stays bound to its cell, and what a cell holds stays what it is, except
for the values of variables. These change by assignments only. An assignment decides on its cell
before the new value is evaluated, and the cell still holds a variable when the value is written.

The main result is `bindings_stable`.
-/

namespace Bytewalk

variable {σ : Type} {m : Setup σ}

/-! ## Assignments -/

namespace Machine

/-- A statement that ends has been counted, and its opcode has been executed. -/
theorem statement_eq_ok {execute : Exec σ Flow} {evaluate : Exec σ Operand} {turns : Nat}
    {op : StatementOp} {flow : Flow} {s t : State σ}
    (hop : StatementOp.ofByte? (m.program.image.byteAt s.position) = some op)
    (h : statement m execute evaluate turns s = .ok flow t) :
    statementOf m execute evaluate turns op
      { s with position := s.position + 1, executed := s.executed + 1 } = .ok flow t := by
  rw [statement_of_opcode hop, Exec.mapError] at h
  split at h
  · cases h
  · obtain ⟨_, s₁, hcount, hrest⟩ := eq_ok_of_bind h
    obtain rfl := countStatement_eq_ok hcount
    obtain ⟨_, s₂, hseek, hbehind⟩ := eq_ok_of_bind hrest
    cases hseek
    exact hbehind

/-- An assignment that ends has found a variable, evaluated the new value and written it. -/
theorem assign_eq_ok {evaluate : Exec σ Operand} {flow : Flow} {s t : State σ}
    (h : assign m evaluate s = .ok flow t) :
    ∃ cell old value u,
      s.store.lookup? s.scope ⟨m.program.image.int32At s.position⟩ = some cell ∧
      (s.store.read? cell).getD default = .variable false old ∧
      evaluateValue evaluate { s with position := s.position + 4 } = .ok value u ∧
      t = { u with store := u.store.write cell (.variable false value) } := by
  obtain ⟨name, s₁, hdecode, h⟩ := eq_ok_of_bind h
  cases hdecode
  obtain ⟨cell, s₂, hresolve, h⟩ := eq_ok_of_bind h
  obtain ⟨rfl, hlookup⟩ := resolve_eq_ok hresolve
  obtain ⟨binding, s₃, hread, h⟩ := eq_ok_of_bind h
  obtain ⟨hbinding, rfl⟩ := (EStateM.Result.ok.injEq ..).mp hread
  cases binding with
  | «variable» constant old =>
    cases constant with
    | true =>
      obtain ⟨_, _, hfail, -⟩ := eq_ok_of_bind h
      cases hfail
    | false =>
      obtain ⟨value, u, hvalue, h⟩ := eq_ok_of_bind h
      cases h
      exact ⟨cell, old, value, u, hlookup, hbinding, hvalue, rfl⟩
  | _ =>
    obtain ⟨_, _, hfail, -⟩ := eq_ok_of_bind h
    cases hfail

end Machine

/-- The assignment that has begun, if it ends in the state `t` with `n` steps for its parts, has
written the cell for which its symbol stood when it began: there was a variable, after the new value
has been evaluated there still is one, and then the cell holds the new value and nothing else has
changed. -/
def Begun.Writes (m : Setup σ) (b : Begun σ) (n : Nat) (t : State σ) : Prop :=
  ∃ cell old u value last, b.Assigns m cell ∧
    b.state.store.read? cell = some (.variable false old) ∧
    Machine.evaluateValue (Machine.evaluate m n)
      { b.state with position := b.state.position + 5, executed := b.state.executed + 1 } =
        .ok value u ∧
    u.store.read? cell = some (.variable false last) ∧
    t = { u with store := u.store.write cell (.variable false value) } ∧
    t.store.read? cell = some (.variable false value)

/-- In order, an assignment that ends writes its cell. -/
theorem InOrder.writes {b : Begun σ} {around : List (Begun σ)} (h : InOrder b around)
    (hkind : b.kind = .statement)
    (hop : StatementOp.ofByte? (m.program.image.byteAt b.state.position) = some .assign) {n : Nat}
    {flow : Flow} {t : State σ} (hrun : Machine.execute m (n + 1) b.state = .ok flow t) :
    b.Writes m n t := by
  rw [Machine.execute_succ] at hrun
  obtain ⟨cell, old, value, u, hlookup, hold, hvalue, rfl⟩ :=
    Machine.assign_eq_ok (Machine.statement_eq_ok hop hrun)
  have hassignable := (h.lexical b List.mem_cons_self).assignable h.orderly hlookup hold
  -- Whatever the evaluation executes, it leads to a later store.
  have hleads := (Machine.acts_evaluateValue (fun _ => Machine.acts_evaluate m n)
    (h.fits (s := { b.state with
      position := b.state.position + 5, executed := b.state.executed + 1 }) rfl rfl)).leads
  rw [hvalue] at hleads
  obtain ⟨last, hlast⟩ := (hassignable.later (hleads.later trivial)).isVariable
  obtain ⟨old', hold'⟩ := hassignable.isVariable
  exact ⟨cell, old', u, value, last, ⟨hkind, hop, hlookup⟩, hold', hvalue, hlast, rfl,
    u.store.read?_write_self hlast _⟩

/-! ## Runs -/

/-- For any two moments of a run, what the store binds and holds at the earlier one persists to the
later one: symbols stay bound to their cells, and only variables that are no constants take other
values. Whatever is executed, from whatever state, a cell holds what it held unless an assignment
begins whose symbol stands for the cell. And at every moment of a run, an assignment that begins and
ends has written the variable for which its symbol stood when it began. -/
theorem bindings_stable (m : Setup σ) (output echoed : Array String) (host : σ) :
    (∀ (watch watch' : Watch σ), watch.Stricter watch' → ∀ steps,
      (endState (m.runWatched watch steps (.initial output echoed host))).store.Persists
        (endState (m.runWatched watch' steps (.initial output echoed host))).store) ∧
    (∀ (watch : Watch σ) cell, (∀ b around, b.Assigns m cell → (watch b around).isSome) →
      ∀ n around (s : State σ) binding, s.store.read? cell = some binding →
        (endState (Machine.executeWatched m watch n around s)).store.read? cell = some binding ∧
        (endState (Machine.evaluateWatched m watch n around s)).store.read? cell = some binding ∧
        (endState (m.runWatched watch n s)).store.read? cell = some binding) ∧
    m.Always (fun b _ => b.kind = .statement →
      StatementOp.ofByte? (m.program.image.byteAt b.state.position) = some .assign →
      ∀ n flow t, Machine.execute m (n + 1) b.state = .ok flow t → b.Writes m n t)
      (.initial output echoed host) := by
  refine ⟨fun watch watch' hstricter steps =>
      (m.later_of_stricter hstricter steps output echoed host).toPersists,
    fun watch cell hwatch n around s binding hs => ?_,
    m.always_of_inOrder (fun _ _ h hkind hop _ _ _ => h.writes hkind hop) output echoed host⟩
  -- Here nothing is assumed about the store.
  · let w : Terms σ :=
      { old := 0, kept := (· = cell), ordered := False, cut := fun _ => False }
    have hkept : ∀ b around other, watch b around = none → b.Assigns m other → ¬ w.kept other := by
      intro b around other hnone hassigns hother
      have hsome := hwatch b around ((show other = cell from hother) ▸ hassigns)
      rw [hnone] at hsome
      cases hsome
    have hfits : s.Fits w s.store := ⟨Nat.zero_le _, False.elim, False.elim, False.elim⟩
    obtain ⟨hexecute, hevaluate⟩ := Machine.acts_watched (w := w) (fun _ _ => id)
      (fun h => h.elim) hkept n around (fun h => h.elim) s hfits
    have hrun := m.acts_runWatched (w := w) rfl (fun _ _ => id) (fun h => h.elim) hkept n hfits
    exact ⟨hexecute.leads.keeps cell binding rfl hs, hevaluate.leads.keeps cell binding rfl hs,
      hrun.leads.keeps cell binding rfl hs⟩

/-- A block with a variable that takes another value. -/
def Stmt.changed : Stmt :=
  .block [.declare false ⟨1⟩ (some (.literal (.bool false))), .assign ⟨1⟩ (.literal (.bool true))]

/-- The watch that stops a run at every assignment. -/
def Watch.assignments (m : Setup σ) : Watch σ := fun b _ =>
  match StatementOp.ofByte? (m.program.image.byteAt b.state.position) with
  | some .assign => some .exhausted
  | _ => none

/-- The watch that stops a run at every assignment that ends normally with so many steps. -/
def Watch.endingAssignments (m : Setup σ) (n : Nat) : Watch σ := fun b _ =>
  match b.kind, StatementOp.ofByte? (m.program.image.byteAt b.state.position),
      Machine.execute m n b.state with
  | .statement, some .assign, .ok .normal _ => some .exhausted
  | _, _, _ => none

/-- The variable is there before the assignment and after it; where assignments are stopped it is
not written; and the assignment writes it. -/
theorem bindings_stable_changed :
    let m := Setup.ofStatement .changed
    let s := State.initial #[] #[] ()
    ∃ declared written : State Unit,
      m.runWatched (.assignments m) 3 s = .error .exhausted declared ∧
      declared.store.read? ⟨0⟩ = some (.variable false (.bool false)) ∧
      m.runWatched .idle 3 s = .ok () written ∧
      written.store.read? ⟨0⟩ = some (.variable false (.bool true)) ∧
      declared.store.Persists written.store ∧
      (endState (m.runWatched (.assignments m) 3 declared)).store.read? ⟨0⟩ =
        some (.variable false (.bool false)) ∧
      ∃ (b : Begun Unit) (t : State Unit),
        Machine.execute m 2 b.state = .ok .normal t ∧ b.Writes m 1 t := by
  intro m s
  obtain ⟨declared, hdeclared, hfalse⟩ : ∃ declared : State Unit,
      m.runWatched (.assignments m) 3 s = .error .exhausted declared ∧
      declared.store.read? ⟨0⟩ = some (.variable false (.bool false)) := ⟨_, by cbv, by cbv⟩
  obtain ⟨written, hwritten, htrue⟩ : ∃ written : State Unit,
      m.runWatched .idle 3 s = .ok () written ∧
      written.store.read? ⟨0⟩ = some (.variable false (.bool true)) := ⟨_, by cbv, by cbv⟩
  obtain ⟨hpersists, hunwritten, halways⟩ := bindings_stable m #[] #[] ()
  have hpersists := hpersists (.assignments m) .idle (fun _ _ h => by cases h) 3
  rw [hdeclared, hwritten] at hpersists
  have hstops : ∀ b around, b.Assigns m ⟨0⟩ → (Watch.assignments m b around).isSome := by
    rintro b around ⟨-, hop, -⟩
    simp [Watch.assignments, hop]
  refine ⟨declared, written, hdeclared, hfalse, hwritten, htrue, hpersists,
    (hunwritten _ ⟨0⟩ hstops 3 [] declared _ hfalse).2.2, ?_⟩
  have hne : m.runWatched (.endingAssignments m 2) 3 s ≠ m.runFrom 3 s := by
    obtain ⟨t, hends⟩ : ∃ t, m.runWatched (.endingAssignments m 2) 3 s = .error .exhausted t :=
      ⟨_, by cbv⟩
    rw [← m.runWatched_idle, hends, hwritten]
    intro heq
    cases heq
  obtain ⟨b, around, hsome, hwrites⟩ := halways.exists_of_ne m hne
  rw [Watch.endingAssignments] at hsome
  split at hsome
  · rename_i t hkind hop hrun
    exact ⟨b, t, hrun, hwrites hkind hop 1 .normal t hrun⟩
  · cases hsome

end Bytewalk
