import Bytewalk.Proofs.Machine.Limits
import Bytewalk.Proofs.Machine.Moments

/-!
# Failing watches

What holds at every moment of a run is safe from every watch. One watch decides it: the watch that
fails as soon as the property does not hold, with a cause of which the run does not fail anyway,
`Setup.always_of_failing`. For under a stricter watch a run is cut short, and otherwise it is the
same.
-/

namespace Bytewalk

variable {σ α : Type}

open Classical in
/-- The watch that fails with the cause at every moment at which the property does not hold. -/
noncomputable def Watch.failing (P : Begun σ → List (Begun σ) → Prop) (cause : Cause) : Watch σ :=
  fun b around => if P b around then none else some (.failed (.of cause))

/-- What begins in the state is executed, unless the watch stops the run. -/
def Watch.guarding (watch : Watch σ) (kind : Node) (around : List (Begun σ))
    (x : State σ → Exec σ α) : Exec σ α := fun s =>
  watch.guard ⟨kind, s⟩ around (x s)

/-- An execution stops since it fails with the cause. -/
def Stop.FailsWith (cause : Cause) : Stop → Prop
  | .failed e => e.cause = cause
  | .exhausted => False

namespace Watch

variable {watch watch' : Watch σ} {P : Begun σ → List (Begun σ) → Prop} {cause : Cause}

theorem failing_of_holds {b : Begun σ} {around : List (Begun σ)} (h : P b around) :
    Watch.failing P cause b around = none :=
  if_pos h

theorem failing_of_not {b : Begun σ} {around : List (Begun σ)} (h : ¬ P b around) :
    Watch.failing P cause b around = some (.failed (.of cause)) :=
  if_neg h

/-- No watch for moments at which the property does not hold stops a run before it fails. -/
theorem failing_stricter (h : ∀ b around, (watch b around).isSome → ¬ P b around) :
    (Watch.failing P cause).Stricter watch := by
  intro b around hstops
  rw [failing_of_not (h b around hstops)]
  rfl

/-- Every stop of the watch is one of `K`. -/
def StopsBy (K : Stop → Prop) (watch : Watch σ) : Prop :=
  ∀ b around stop, watch b around = some stop → K stop

theorem failing_stopsBy : (Watch.failing P cause).StopsBy (Stop.FailsWith cause) := by
  intro b around stop hstops
  rw [failing] at hstops
  split at hstops
  · cases hstops
  · cases hstops
    rfl

end Watch

/-! ## Stricter watches -/

namespace Cuts

variable {K : Stop → Prop} {watch watch' : Watch σ}

/-- What begins under a stricter watch is cut short where it begins, or later. -/
theorem guarding (hK : watch.StopsBy K) (hstricter : watch.Stricter watch') (kind : Node)
    (around : List (Begun σ)) {x x' : State σ → Exec σ α} (h : ∀ s, Cuts K (x s) (x' s)) :
    Cuts K (watch.guarding kind around x) (watch'.guarding kind around x') := by
  rw [Cuts]
  intro s
  have hbody := h s
  rw [Cuts] at hbody
  obtain ⟨hbefore, hsame⟩ := hbody s
  have hends : s.Before (endState (watch'.guarding kind around x' s)) := by
    rw [Watch.guarding, Watch.guard]
    split
    · exact .refl s
    · exact hbefore
  refine ⟨hends, ?_⟩
  cases hstops : watch ⟨kind, s⟩ around with
  | some stop =>
    exact .inr ⟨stop, s, by rw [Watch.guarding, Watch.guard, hstops], hK _ _ stop hstops, hends⟩
  | none =>
    -- Where the stricter watch lets it begin, the other one does so too.
    have hstops' : watch' ⟨kind, s⟩ around = none := by
      cases hfires : watch' ⟨kind, s⟩ around with
      | none => rfl
      | some stop =>
        have hsome := hstricter ⟨kind, s⟩ around (by rw [hfires]; rfl)
        rw [hstops] at hsome
        cases hsome
    simpa only [Watch.guarding, Watch.guard, hstops, hstops'] using hsame

section Machines

variable (m : Setup σ)
  (hcause : ∀ e e' : Error, e'.cause = e.cause → K (.failed e) → K (.failed e'))
include hcause

/-- Under the same limits machines go in lockstep up to where the first one is cut short. -/
theorem lockstep_same :
    Machine.Lockstep m m.hosts m.config id (Machine.Binds fun _ => True)
      (fun {_} => Cuts (σ := σ) K) :=
  (Cuts.congruence (.refl m.config) (fun _ h => absurd h Config.Stops.irrefl) hcause).lockstep

variable (hK : watch.StopsBy K) (hstricter : watch.Stricter watch')
include hK hstricter

/-- Under a stricter watch executions and evaluations are cut short. -/
theorem watched (n : Nat) : ∀ around,
    Cuts K (Machine.executeWatched m watch n around) (Machine.executeWatched m watch' n around) ∧
      Cuts K (Machine.evaluateWatched m watch n around)
        (Machine.evaluateWatched m watch' n around) := by
  have hlockstep := lockstep_same m hcause
  induction n with
  | zero =>
    intro around
    rw [Machine.executeWatched_zero, Machine.executeWatched_zero, Machine.evaluateWatched_zero,
      Machine.evaluateWatched_zero]
    exact ⟨hlockstep.exhaust, hlockstep.exhaust⟩
  | succ n ih =>
    intro around
    constructor
    · rw [funext (Machine.executeWatched_succ m watch n around),
        funext (Machine.executeWatched_succ m watch' n around)]
      refine guarding hK hstricter .statement around fun s => ?_
      obtain ⟨hx, he⟩ := ih (⟨.statement, s⟩ :: around)
      refine hlockstep.statement hx he (.refl n) ?_
      exact hlockstep.declareClass fun _ => by rintro _ _ ⟨⟩
    · rw [funext (Machine.evaluateWatched_succ m watch n around),
        funext (Machine.evaluateWatched_succ m watch' n around)]
      refine guarding hK hstricter .expression around fun s => ?_
      obtain ⟨hx, he⟩ := ih (⟨.expression, s⟩ :: around)
      exact hlockstep.expression he (hlockstep.call hx he)

/-- Under a stricter watch a run is the same, or it stops for a reason of the watch. -/
theorem runWatched_eq_or (steps : Nat) (s : State σ) :
    m.runWatched watch steps s = m.runWatched watch' steps s ∨
      ∃ stop t, m.runWatched watch steps s = .error stop t ∧ K stop := by
  have hrun := (lockstep_same m hcause).topLevel (watched m hcause hK hstricter steps []).1
    (.refl steps)
  rw [Cuts] at hrun
  rcases (hrun s).2 with hsame | ⟨stop, t, hstop, hreason, -⟩
  · exact .inl hsame
  · exact .inr ⟨stop, t, hstop, hreason⟩

end Machines

end Cuts

/-! ## Runs -/

/-- A property holds at every moment of a run if for any number of steps there is a cause of which
the run under the failing watch does not fail. -/
theorem Setup.always_of_failing {m : Setup σ} {P : Begun σ → List (Begun σ) → Prop} {s : State σ}
    (h : ∀ steps, ∃ cause, ∀ e t,
      m.runWatched (.failing P cause) steps s = .error (.failed e) t → e.cause ≠ cause) :
    m.Always P s := by
  intro watch hwatch steps
  obtain ⟨cause, hcause⟩ := h steps
  -- The failing watch is stricter than this one, and than the one that never stops a run.
  have hsame : ∀ watch' : Watch σ, (∀ b around, (watch' b around).isSome → ¬ P b around) →
      m.runWatched (.failing P cause) steps s = m.runWatched watch' steps s := by
    intro watch' hwatch'
    rcases Cuts.runWatched_eq_or m (K := Stop.FailsWith cause) (fun _ _ heq => heq.trans)
      Watch.failing_stopsBy (Watch.failing_stricter hwatch') steps s with
      heq | ⟨stop, t, hstop, hfails⟩
    · exact heq
    · cases stop with
      | failed e => exact absurd hfails (hcause e t hstop)
      | exhausted => cases hfails
  rw [← hsame watch hwatch, hsame .idle nofun, Setup.runWatched_idle]

end Bytewalk
