/-!
# Computations with state and failure

How two computations run one after the other.
-/

namespace Bytewalk

variable {ε σ α β : Type} {x x' : EStateM ε σ α} {k k' : α → EStateM ε σ β} {s t : σ}

/-- Where the first computation yields a result, the second one goes on with it. -/
theorem bind_of_ok {a : α} (h : x s = .ok a t) : (x >>= k) s = k a t := by
  simp [bind, EStateM.bind, h]

/-- Where the first computation fails, the whole fails. -/
theorem bind_of_error {e : ε} (h : x s = .error e t) : (x >>= k) s = .error e t := by
  simp [bind, EStateM.bind, h]

/-- Where the whole yields a result, both computations do. -/
theorem eq_ok_of_bind {b : β} (h : (x >>= k) s = .ok b t) :
    ∃ a u, x s = .ok a u ∧ k a u = .ok b t := by
  cases hx : x s with
  | ok a u => exact ⟨a, u, rfl, by rwa [bind_of_ok hx] at h⟩
  | error e u =>
    rw [bind_of_error hx] at h
    cases h

/-- Computations that do the same in the state, and go on alike, do the same on the whole. -/
theorem bind_eq_bind (hx : x' s = x s) (hk : ∀ a t, x s = .ok a t → k' a t = k a t) :
    (x' >>= k') s = (x >>= k) s := by
  cases hrun : x s with
  | ok a t =>
    rw [bind_of_ok hrun, bind_of_ok (hx.trans hrun)]
    exact hk a t hrun
  | error e t => rw [bind_of_error hrun, bind_of_error (hx.trans hrun)]

end Bytewalk
