import Bytewalk.Machine.Session
import Bytewalk.Proofs.Machine.Limits

/-!
# Ends of sessions

A session passes on what a run of the machine leaves: `Session.run_eq` says so once for all ways in
which a run ends.
-/

namespace Bytewalk

variable {σ : Type}

/-- How a run ends of which this is the result. -/
def Outcome.ofResult : EStateM.Result Stop (State σ) Unit → Outcome
  | .ok _ _ => .finished
  | .error (.failed e) _ => .failed e
  | .error .exhausted _ => .unfinished

/-- The state is not looked at. -/
@[simp]
theorem Outcome.ofResult_left (leave : State σ → State σ → State σ) (s : State σ)
    (r : EStateM.Result Stop (State σ) Unit) : ofResult (Exec.left leave s r) = ofResult r := by
  rcases r with _ | _
  · rfl
  · rename_i stop _
    cases stop <;> rfl

/-- What a run does to a session, however it ends. -/
theorem Session.run_eq (session : Session σ) (program : Program) {m : Setup σ}
    (hm : m = { program, hosts := session.hosts, config := session.config })
    {r : EStateM.Result Stop (State σ) Unit}
    (hr : m.runFrom m.steps (.initial session.output session.echoed session.host) = r) :
    session.run program =
      (.ofResult r, { session with
        output := (endState r).output, echoed := (endState r).echoed,
        host := (endState r).host }) := by
  subst hm
  rw [run]
  dsimp only
  rw [hr]
  rcases r with _ | ⟨_ | _, _⟩ <;> rfl

end Bytewalk
