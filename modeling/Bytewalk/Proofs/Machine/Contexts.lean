import Bytewalk.Proofs.Machine.Limits

/-!
# Contexts

Blocks, loops, modules, members of modules and calls are executed in a context of their own. Each
of them leaves the context as it found it, however it ends: `Restores` says this of an execution,
and it is a congruence. A call does not even look at the place from which it is made: `Isolated`
says that only the place differs where an execution begins at another place.

The main result is `context_restored`.
-/

namespace Bytewalk

variable {σ α β : Type}

/-! ## Restored contexts -/

/-- The states have the same context. -/
structure State.SameContext (s t : State σ) : Prop where
  /-- The scope. -/
  scope : t.scope = s.scope
  /-- The modules around. -/
  modules : t.modules = s.modules
  /-- The number of open calls. -/
  depth : t.depth = s.depth

namespace State.SameContext

variable {s t u : State σ}

@[refl]
theorem refl (s : State σ) : s.SameContext s :=
  ⟨rfl, rfl, rfl⟩

theorem trans (h : s.SameContext t) (h' : t.SameContext u) : s.SameContext u :=
  ⟨h'.scope.trans h.scope, h'.modules.trans h.modules, h'.depth.trans h.depth⟩

end State.SameContext

/-- From one state to the other the context has been restored, lines may have been added and
statements counted. -/
structure State.Resumes (s t : State σ) : Prop extends s.Before t, s.SameContext t

/-- However it ends, the execution leaves the context as it found it. -/
def Restores (x : Exec σ α) : Prop :=
  ∀ s : State σ, s.SameContext (endState (x s))

namespace Restores

variable {m : Setup σ} {x : Exec σ α} {k : α → Exec σ β}

theorem elementary {lent : HostFunction σ → Prop} (h : Machine.Elementary m lent x) :
    Restores x := by
  intro s
  cases h with
  | pure | get | exhaust | fail | seek | openIn | write => exact ⟨rfl, rfl, rfl⟩
  | @lift _ result => cases result <;> exact ⟨rfl, rfl, rfl⟩
  | @decode _ decoder =>
    cases hread : decoder s.position with
    | ok a p =>
      rw [Exec.decode_of_ok s hread]
      exact ⟨rfl, rfl, rfl⟩
    | error e p =>
      rw [Exec.decode_of_error s hread]
      exact ⟨rfl, rfl, rfl⟩
  | bindIn names scope name =>
    rw [Exec.bindIn]
    split <;> exact ⟨rfl, rfl, rfl⟩

theorem bind (hx : Restores x) (hk : ∀ a, Restores (k a)) : Restores (x >>= k) := by
  intro s
  have hfirst := hx s
  cases hs : x s with
  | ok a t =>
    rw [hs] at hfirst
    rw [bind_of_ok hs]
    exact hfirst.trans (hk a t)
  | error stop t =>
    rw [hs] at hfirst
    rw [bind_of_error hs]
    exact hfirst

theorem mapError {f : Error → Error} (h : Restores x) : Restores (Exec.mapError f x) := by
  intro s
  rw [endState_mapError]
  exact h s

/-- What an execution in another context leaves is restored by what it restores itself and by what
is put back behind it. -/
theorem within {enter : State σ → State σ} {leave : State σ → State σ → State σ}
    (hleave : ∀ s t, (enter s).SameContext t → s.SameContext (leave s t)) (h : Restores x) :
    Restores (Exec.within enter leave x) := by
  intro s
  rw [endState_within]
  exact hleave s _ (h (enter s))

theorem withinDepth (h : Restores x) : Restores (Machine.withinDepth m x) := by
  intro s
  rw [Machine.withinDepth]
  split
  · exact .refl s
  · exact h s

theorem callHost (f : HostFunction σ) (args : List Value) :
    Restores (Machine.callHost f args) := by
  intro s
  rw [Machine.callHost]
  split <;> exact ⟨rfl, rfl, rfl⟩

theorem emitLine (line : String) : Restores (Machine.emitLine m line) := by
  intro s
  rw [Machine.emitLine_eq]
  split <;> exact ⟨rfl, rfl, rfl⟩

theorem countStatement : Restores (Machine.countStatement m) := by
  intro s
  rcases Machine.countStatement_cases m s with hlt | ⟨limit, hfuel, hle⟩
  · rw [Machine.countStatement_of_lt hlt]
    exact ⟨rfl, rfl, rfl⟩
  · rw [Machine.countStatement_of_le hfuel hle]
    exact ⟨rfl, rfl, rfl⟩

/-- To restore the context is a congruence. -/
theorem congruence (m : Setup σ) :
    Machine.Congruence m m.config (fun _ => True) (fun {_} x _ => Restores x) where
  registered _ := trivial
  elementary := elementary
  bind := bind
  read hk := bind (fun s => State.SameContext.refl s) fun b => hk b fun _ _ _ => trivial
  mapError _ h := mapError h
  inScope h := within (fun _ _ ht => ⟨rfl, ht.modules, ht.depth⟩) h
  inModule h := within (fun _ _ ht => ⟨ht.scope, rfl, ht.depth⟩) h
  inCall h := within (fun _ _ _ => ⟨rfl, rfl, rfl⟩) h
  withinDepth := withinDepth
  callHost _ := callHost _
  emitLine := emitLine
  countStatement := countStatement

end Restores

/-! ## Isolated calls -/

/-- The state at the place of another one: at its position, in its scope and in its modules. -/
def State.placedAs (s place : State σ) : State σ :=
  { s with position := place.position, scope := place.scope, modules := place.modules }

/-- The place from which the execution begins makes no difference but that it ends there. -/
def Isolated (x : Exec σ α) : Prop :=
  ∀ s place : State σ,
    x (s.placedAs place) = Exec.left (fun outside t => t.placedAs outside) place (x s)

namespace Isolated

variable {m : Setup σ} {x : Exec σ α} {k : α → Exec σ β}

theorem pure (a : α) : Isolated (Pure.pure a : Exec σ α) :=
  fun _ _ => rfl

theorem fail (cause : Cause) : Isolated (Exec.fail cause : Exec σ α) :=
  fun _ _ => rfl

theorem bind (hx : Isolated x) (hk : ∀ a, Isolated (k a)) : Isolated (x >>= k) := by
  intro s place
  have hfirst := hx s place
  cases hs : x s with
  | ok a t =>
    rw [hs] at hfirst
    rw [bind_of_ok hs, bind_of_ok hfirst]
    exact hk a t place
  | error stop t =>
    rw [hs] at hfirst
    rw [bind_of_error hs, bind_of_error hfirst]
    rfl

theorem mapError {f : Error → Error} (h : Isolated x) : Isolated (Exec.mapError f x) := by
  intro s place
  have hx := h s place
  rw [Exec.mapError, Exec.mapError]
  cases hs : x s with
  | ok a t =>
    rw [hs] at hx
    rw [hx]
    rfl
  | error stop t =>
    rw [hs] at hx
    rw [hx]
    cases stop <;> rfl

theorem forM {ι : Type} {f : ι → Exec σ PUnit} (hf : ∀ i, Isolated (f i)) (items : List ι) :
    Isolated (items.forM f) := by
  induction items with
  | nil => exact pure _
  | cons i rest ih => exact (hf i).bind fun _ => ih

theorem bindIn (names : NameTable) (scope : Scope) (name : Symbol) (binding : Binding σ) :
    Isolated (Exec.bindIn names scope name binding) := by
  intro s place
  rw [Exec.bindIn, Exec.bindIn]
  by_cases hbound : s.store.bindsLocally scope name
  · have hbound' : (s.placedAs place).store.bindsLocally scope name := hbound
    rw [if_pos hbound, if_pos hbound']
    rfl
  · have hbound' : ¬ (s.placedAs place).store.bindsLocally scope name := hbound
    rw [if_neg hbound, if_neg hbound']
    rfl

/-- In a call everything about the place is replaced, whatever is executed there. -/
theorem inCall (entry : Nat) (scope : Scope) (modules : List Symbol) (x : Exec σ α) :
    Isolated (Exec.inCall entry scope modules x) := by
  intro s place
  have hinside : Exec.inCall entry scope modules x (s.placedAs place) =
      Exec.left (fun outside t => { t.placedAs outside with depth := s.depth }) place
        (x { s with position := entry, scope, modules, depth := s.depth + 1 }) := rfl
  rw [hinside, Exec.inCall]
  cases x { s with position := entry, scope, modules, depth := s.depth + 1 } <;> rfl

theorem withinDepth (h : Isolated x) : Isolated (Machine.withinDepth m x) := by
  intro s place
  rw [Machine.withinDepth, Machine.withinDepth]
  by_cases hdepth : m.config.maxCallDepth ≤ s.depth
  · have hdepth' : m.config.maxCallDepth ≤ (s.placedAs place).depth := hdepth
    rw [if_pos hdepth, if_pos hdepth']
    rfl
  · have hdepth' : ¬ m.config.maxCallDepth ≤ (s.placedAs place).depth := hdepth
    rw [if_neg hdepth, if_neg hdepth']
    exact h s place

/-- Calls are isolated. -/
theorem invoke (m : Setup σ) (execute : Exec σ Flow) (f : Function) (args : List Value) :
    Isolated (Machine.invoke m execute f args) := by
  rw [Machine.invoke_eq]
  split
  · have hopen : Isolated (Machine.openFrame m f args) := by
      rw [Machine.openFrame_eq_bind]
      refine bind (fun _ _ => rfl) fun frame => ?_
      refine bind (forM (fun i => ?_) _) fun _ => pure frame
      exact bindIn _ frame i.1 _
    refine withinDepth (hopen.bind fun frame => mapError ((inCall _ _ _ _).bind fun flow => ?_))
    cases flow with
    | normal | returnValue => exact pure _
    | breakLoop => exact fail _
  · exact fail _

/-- An isolated execution ends where it begins. -/
theorem position_eq (h : Isolated x) (s : State σ) : (endState (x s)).position = s.position := by
  have hx := congrArg endState (h s s)
  have hplace : s.placedAs s = s := rfl
  rw [hplace] at hx
  rw [hx]
  cases x s <;> rfl

end Isolated

/-! ## Runs -/

/-- What restores the context and only goes on resumes where it begins. -/
private theorem resumes_of_cuts {K : Stop → Prop} {x : Exec σ α} (hcuts : Cuts K x x)
    (hrestores : Restores x) (s : State σ) : s.Resumes (endState (x s)) := by
  rw [Cuts] at hcuts
  exact { toBefore := (hcuts s).1, toSameContext := hrestores s }

/-- Whatever is executed, and however it ends, the scope, the modules around and the number of open
calls are those of its beginning; no statement is forgotten, and the lines before are the first
ones. A call also ends at the position of its beginning, and it is isolated from its caller: made
from another position, in another scope and in other modules it yields the same result, and the same
state but for this place. -/
theorem context_restored (m : Setup σ) (n : Nat) (s : State σ) :
    s.Resumes (endState (Machine.execute m n s)) ∧
    s.Resumes (endState (Machine.evaluate m n s)) ∧
    ∀ (f : Function) (args : List Value),
      s.Resumes (endState (Machine.invoke m (Machine.execute m n) f args s)) ∧
      (endState (Machine.invoke m (Machine.execute m n) f args s)).position = s.position ∧
      ∀ place : State σ, Machine.invoke m (Machine.execute m n) f args (s.placedAs place) =
        Exec.left (fun outside t => t.placedAs outside) place
          (Machine.invoke m (Machine.execute m n) f args s) := by
  have hcuts := Cuts.congruence (σ := σ) (.refl m.config) (fun _ => id)
    fun _ _ => Config.Stops.congr
  have hrestores := Restores.congruence m
  obtain ⟨hexecuteCuts, hevaluateCuts⟩ := hcuts.execute_evaluate (.refl n)
  obtain ⟨hexecute, hevaluate⟩ := hrestores.execute_evaluate (.refl n)
  refine ⟨resumes_of_cuts hexecuteCuts hexecute s, resumes_of_cuts hevaluateCuts hevaluate s, ?_⟩
  intro f args
  have hinvoke : Restores (Machine.invoke m (Machine.execute m n) f args) :=
    @Machine.Congruence.invoke _ _ _ _ _ hrestores _ (Machine.execute m n) hexecute f args
  have hisolated := Isolated.invoke m (Machine.execute m n) f args
  exact ⟨resumes_of_cuts (hcuts.invoke hexecuteCuts f args) hinvoke s, hisolated.position_eq s,
    hisolated s⟩

end Bytewalk
