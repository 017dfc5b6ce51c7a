import Bytewalk.Proofs.Machine.Actions

/-!
# Order along runs

What single statements and expressions do to a store, watched executions do, and so do whole runs:
`acts_watched` is the step from what is inside to what is around it, and `acts_runWatched` goes from
the first statement to the last. A run begins in order, and so it is in order at every moment:
`always_of_inOrder`.
-/

namespace Bytewalk

variable {σ α : Type}

/-! ## Watched executions -/

/-- At the moment the store is in order, and the scope of everything that has begun is lexical. -/
structure InOrder (b : Begun σ) (around : List (Begun σ)) : Prop where
  /-- The store is in order. -/
  orderly : b.state.store.Orderly
  /-- The scopes are lexical. -/
  lexical : ∀ c ∈ b :: around, b.state.store.Lexical c.state.scope.frames

/-- What begins acts as it does unwatched, unless a watch stops it. -/
theorem Acts.guard {w : Terms σ} {gain : Set Symbol} {u : Store (Binding σ)} {x x' y y' : Exec σ α}
    {watch watch' : Watch σ} {b : Begun σ} {around : List (Begun σ)}
    (hx : x b.state = watch.guard b around y) (hx' : x' b.state = watch'.guard b around y')
    (hb : b.state.Fits w u) (hstricter : watch.Stricter watch')
    (hcut : w.ordered → (watch b around).isSome → w.cut b.state.store)
    (h : watch' b around = none → Acts w gain y y' b.state) : Acts w gain x x' b.state := by
  rw [Watch.guard] at hx hx'
  cases hwatch : watch b around with
  | none =>
    have hwatch' : watch' b around = none := by
      cases hwatch' : watch' b around with
      | none => rfl
      | some stop' =>
        have hsome := hstricter b around (by rw [hwatch']; rfl)
        rw [hwatch] at hsome
        cases hsome
    rw [hwatch] at hx
    rw [hwatch'] at hx'
    exact (h hwatch').congr hx hx'
  | some stop =>
    rw [hwatch] at hx
    have hcut := fun hw => hcut hw (by rw [hwatch]; rfl)
    cases hwatch' : watch' b around with
    | none =>
      rw [hwatch'] at hx'
      exact ((h hwatch').congr rfl hx').stopped hx hcut
    | some stop' =>
      rw [hwatch'] at hx'
      have hends : Acts w gain x' x' b.state := by
        refine .of_leads ?_
        rw [hx']
        exact .refl gain hb
      exact hends.stopped hx hcut

namespace Machine

variable {m : Setup σ} {w : Terms σ} {watch watch' : Watch σ}

/-- Executions inside of what has begun around act on the terms `w`, where the second watch stops
assignments to cells that are not to be written, and where the first watch may stop an execution
only if the terms say so. -/
theorem acts_watched (hstricter : watch.Stricter watch')
    (hcut : w.ordered → ∀ b around, InOrder b around → (watch b around).isSome →
      w.cut b.state.store)
    (hkept : ∀ b around cell, watch' b around = none → b.Assigns m cell → ¬ w.kept cell)
    (n : Nat) : ∀ {u : Store (Binding σ)} (around : List (Begun σ)),
      (w.ordered → ∀ c ∈ around, u.Lexical c.state.scope.frames) → ∀ s : State σ, s.Fits w u →
      Acts w (namesAt m.program.image s.position)
          (executeWatched m watch n around) (executeWatched m watch' n around) s ∧
        Acts w ∅ (evaluateWatched m watch n around) (evaluateWatched m watch' n around) s := by
  -- Both halves go together, since calls execute statements.
  induction n with
  | zero =>
    intro u around _ s hs
    exact ⟨.of_leads (.refl _ hs), .of_leads (.refl _ hs)⟩
  | succ n ih =>
    intro u around haround s hs
    -- What has begun around is lexical in the store of this moment as well.
    have hnow : ∀ kind, w.ordered →
        ∀ c ∈ (⟨kind, s⟩ :: around : List (Begun σ)), s.store.Lexical c.state.scope.frames :=
      fun kind hw => List.forall_mem_cons.2
        ⟨hs.lexical hw, fun c hc => (haround hw c hc).later (hs.later hw)⟩
    have hexec : ∀ kind (t : State σ), t.Fits w s.store → Acts w Set.univ
        (executeWatched m watch n (⟨kind, s⟩ :: around))
        (executeWatched m watch' n (⟨kind, s⟩ :: around)) t :=
      fun kind t ht => (ih _ (hnow kind) t ht).1.mono (Set.subset_univ _)
    have heval : ∀ kind (t : State σ), t.Fits w s.store → Acts w ∅
        (evaluateWatched m watch n (⟨kind, s⟩ :: around))
        (evaluateWatched m watch' n (⟨kind, s⟩ :: around)) t :=
      fun kind t ht => (ih _ (hnow kind) t ht).2
    have hstops : ∀ kind, w.ordered → (watch ⟨kind, s⟩ around).isSome → w.cut s.store :=
      fun kind hw => hcut hw _ _ ⟨hs.orderly hw, hnow kind hw⟩
    constructor
    · exact .guard (executeWatched_succ m watch n around s)
        (executeWatched_succ m watch' n around s) hs hstricter (hstops .statement) fun hnone =>
          acts_statement (hexec .statement) (heval .statement) n hs.here fun cell =>
            hkept _ around cell hnone
    · exact .guard (evaluateWatched_succ m watch n around s)
        (evaluateWatched_succ m watch' n around s) hs hstricter (hstops .expression) fun _ =>
          acts_expression (heval .expression)
            (fun t ht => acts_call (hexec .expression) (heval .expression) ht) hs.here

/-- Whole statements and expressions act on terms on which every cell may be written. -/
theorem acts_whole (hkept : ∀ cell, ¬ w.kept cell) (n : Nat) {u : Store (Binding σ)} {s : State σ}
    (hs : s.Fits w u) :
    Acts w (namesAt m.program.image s.position) (execute m n) (execute m n) s ∧
      Acts w ∅ (evaluate m n) (evaluate m n) s := by
  have hstricter : Watch.idle.Stricter (Watch.idle : Watch σ) := fun _ _ => id
  have h := acts_watched (m := m) (w := w) hstricter (fun _ _ _ _ hsome => by cases hsome)
    (fun _ _ cell _ _ => hkept cell) n [] (fun _ _ hc => by cases hc) s hs
  rw [(watched_idle m n []).1, (watched_idle m n []).2] at h
  exact h

/-- Where no frame counts as old, statements act together as each of them does. -/
theorem acts_topLevel {u : Store (Binding σ)} {execute execute' : Exec σ Flow} (hold : w.old = 0)
    (hexec : ∀ t : State σ, t.Fits w u → Acts w Set.univ execute execute' t) (n : Nat) :
    ∀ s : State σ, s.Fits w u → Acts w ∅ (topLevel m execute n) (topLevel m execute' n) s := by
  induction n with
  | zero =>
    intro s hs
    rw [topLevel_zero, topLevel_zero]
    refine .afterStill hs .position fun start t _ _ _ ht => ?_
    split
    · exact .of_leads (.refl ∅ ht)
    · exact .still ht (.pure _)
  | succ n ih =>
    intro s hs
    rw [topLevel_succ, topLevel_succ]
    refine .afterStill hs .position fun start t _ _ _ ht => ?_
    split
    · have hnew : w.old ≤ t.scope.frame.index := hold ▸ Nat.zero_le _
      refine .andThen ht ((hexec t ht).of_new hnew) fun flow t' _ _ ht' => ?_
      cases flow with
      | normal => exact ih t' ht'
      | breakLoop | returnValue => exact .mapError (.still ht' (.fail _))
    · exact .still ht (.pure _)

end Machine

/-! ## Runs -/

/-- Stores are in order, and nothing is asked of frames and cells. The first of two executions may
be stopped anywhere. -/
def Terms.orderly (σ : Type) : Terms σ where
  old := 0
  kept _ := False
  ordered := True
  cut _ := True

/-- In order, the evaluation of an expression leads to a later store in order. -/
theorem Machine.acts_evaluate (m : Setup σ) (n : Nat) {u : Store (Binding σ)} {s : State σ}
    (hs : s.Fits (.orderly σ) u) : Acts (.orderly σ) ∅ (evaluate m n) (evaluate m n) s :=
  (acts_whole (fun _ => id) n hs).2

/-- A moment in order is one from which executions keep stores in order. -/
theorem InOrder.fits {b : Begun σ} {around : List (Begun σ)} (h : InOrder b around) {s : State σ}
    (hstore : s.store = b.state.store) (hscope : s.scope = b.state.scope) :
    s.Fits (.orderly σ) s.store where
  opened := Nat.zero_le _
  orderly _ := hstore ▸ h.orderly
  lexical _ := hstore ▸ hscope ▸ h.lexical b List.mem_cons_self
  later _ := .refl s.store

/-- A run begins in order: nothing is bound, and there is one frame. -/
theorem State.Fits.initial {w : Terms σ} (hold : w.old = 0) (output echoed : Array String)
    (host : σ) : (State.initial output echoed host).Fits w
      (State.initial output echoed host).store := by
  have hnone := State.read?_initial output echoed host
  have hunbound : ∀ frame s, (State.initial output echoed host).store.local? frame s = none := by
    intro frame s
    rcases frame with ⟨_ | index⟩ <;> rfl
  refine ⟨hold ▸ Nat.zero_le _, fun _ => ⟨?_, ?_, ?_⟩, fun _ => ⟨?_, ?_, ?_⟩, fun _ => .refl _⟩
  · intro frame s cell h
    rw [hunbound] at h
    cases h
  · intro frame s frame' s' cell h
    rw [hunbound] at h
    cases h
  · intro cell b h
    rw [hnone] at h
    cases h
  · intro frame hframe
    obtain rfl := List.mem_singleton.1 hframe
    exact Nat.zero_lt_one
  · rintro frame _ f ⟨cell, hcell⟩
    rw [hnone] at hcell
    cases hcell
  · exact .singleton _

namespace Setup

variable (m : Setup σ)

/-- Whole runs act on terms as what is executed in them. -/
theorem acts_runWatched {w : Terms σ} {watch watch' : Watch σ} (hold : w.old = 0)
    (hstricter : watch.Stricter watch')
    (hcut : w.ordered → ∀ b around, InOrder b around → (watch b around).isSome →
      w.cut b.state.store)
    (hkept : ∀ b around cell, watch' b around = none → b.Assigns m cell → ¬ w.kept cell)
    (steps : Nat) {u : Store (Binding σ)} {s : State σ} (hs : s.Fits w u) :
    Acts w ∅ (m.runWatched watch steps) (m.runWatched watch' steps) s := by
  refine Machine.acts_topLevel hold (fun t ht => ?_) steps s hs
  have h := Machine.acts_watched hstricter hcut hkept steps [] (fun _ _ hc => by cases hc) t ht
  exact h.1.mono (Set.subset_univ _)

/-- At the end of a watched run the store is in order, and the current scope is lexical. -/
theorem orderly_runWatched (watch : Watch σ) (steps : Nat) (output echoed : Array String)
    (host : σ) :
    let t := endState (m.runWatched watch steps (.initial output echoed host))
    t.store.Orderly ∧ t.store.Lexical t.scope.frames := by
  have hs := State.Fits.initial (w := .orderly σ) rfl output echoed host
  have hleads := (m.acts_runWatched rfl (fun _ _ => id) (fun _ _ _ _ _ => trivial)
    (fun _ _ _ _ _ => id) steps hs : Acts _ ∅ (m.runWatched watch steps) _ _).leads
  exact ⟨hleads.orderly trivial, (hleads.fits hs).lexical trivial⟩

/-- Where a run is stopped later, the store is a later one. -/
theorem later_of_stricter {watch watch' : Watch σ} (h : watch.Stricter watch') (steps : Nat)
    (output echoed : Array String) (host : σ) :
    (endState (m.runWatched watch steps (.initial output echoed host))).store.Later
      (endState (m.runWatched watch' steps (.initial output echoed host))).store := by
  have hacts := m.acts_runWatched (w := .orderly σ) rfl h (fun _ _ _ _ _ => trivial)
    (fun _ _ _ _ _ => id) steps (.initial rfl output echoed host)
  rcases hacts.same trivial with heq | ⟨stop, t, heq, -, hlater⟩
  · rw [heq]
  · rw [heq]
    exact hlater

/-- A watched run is the whole run up to where it is stopped, and it is stopped at a moment in
order. -/
theorem runWatched_cases (watch : Watch σ) (output echoed : Array String) (host : σ) (steps : Nat) :
    m.runWatched watch steps (.initial output echoed host) =
        m.runFrom steps (.initial output echoed host) ∨
      ∃ b around, InOrder b around ∧ (watch b around).isSome ∧
        (endState (m.runWatched watch steps (.initial output echoed host))).store =
          b.state.store := by
  let w : Terms σ := {
    old := 0, kept := fun _ => False, ordered := True
    cut := fun store => ∃ b around, InOrder b around ∧ (watch b around).isSome ∧
      store = b.state.store }
  have hacts : Acts w ∅ (m.runWatched watch steps) (m.runWatched .idle steps)
      (.initial output echoed host) :=
    m.acts_runWatched (w := w) rfl (fun _ _ h => by cases h)
      (fun _ b around horder hsome => ⟨b, around, horder, hsome, rfl⟩)
      (fun _ _ _ _ _ => id) steps (.initial rfl output echoed host)
  rw [← m.runWatched_idle]
  rcases hacts.same trivial with heq | ⟨stop, t, heq, hcut, -⟩
  · exact .inl heq
  · rw [heq]
    exact .inr hcut

/-- A run is in order at every moment. -/
theorem always_of_inOrder {P : Begun σ → List (Begun σ) → Prop}
    (hP : ∀ b around, InOrder b around → P b around) (output echoed : Array String) (host : σ) :
    m.Always P (.initial output echoed host) := by
  intro watch hwatch steps
  rcases m.runWatched_cases watch output echoed host steps with heq | ⟨b, around, horder, hsome, -⟩
  · exact heq
  · exact absurd (hP b around horder) (hwatch b around hsome)

end Setup

end Bytewalk
