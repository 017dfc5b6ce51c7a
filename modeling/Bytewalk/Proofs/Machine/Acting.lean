import Bytewalk.Proofs.Machine.Limits
import Bytewalk.Proofs.Scope.Order

/-!
# What executions do to a store

Two things are asked of an execution. First, for any state: which of the frames that were there
before may bind more afterwards, and which cells hold what they held. Second, for a store in order:
that it stays in order, and that what has been bound persists. `Acts` asks both, and it compares
the execution with one that is stopped before; `Terms` says which frames and cells are meant, and
whether stores are in order.

The rules of this module put executions together from parts; `Acts.bind` is the main one.
-/

namespace Bytewalk

variable {σ α β : Type}

/-! ## States along an execution -/

/-- The terms on which executions are looked at. -/
structure Terms (σ : Type) where
  /-- The frames that are numbered below are the old ones. -/
  old : Nat
  /-- The cells that are not written. -/
  kept : CellId → Prop
  /-- Whether stores are in order. -/
  ordered : Prop
  /-- The stores with which the first of two executions may be stopped before the end of the second
  one. -/
  cut : Store (Binding σ) → Prop

/-- The state may be met on these terms, after the store `u`. -/
structure State.Fits (w : Terms σ) (u : Store (Binding σ)) (s : State σ) : Prop where
  /-- The old frames have been opened. -/
  opened : w.old ≤ s.store.frames.size
  /-- The store is in order. -/
  orderly : w.ordered → s.store.Orderly
  /-- The frames of the current scope are lexical. -/
  lexical : w.ordered → s.store.Lexical s.scope.frames
  /-- What has been bound in `u` persists. -/
  later : w.ordered → u.Later s.store

/-- On these terms an execution may lead from one state to the other, binding one of the names in
the current frame or none. -/
structure State.Leads (w : Terms σ) (gain : Set Symbol) (s t : State σ) : Prop where
  /-- The scope is the same. -/
  scope : t.scope = s.scope
  /-- The current frame may bind one of the names more, and no other old frame does. -/
  gains : s.store.Gains w.old s.scope.frame gain t.store
  /-- Cells that are not written hold what they held. -/
  keeps : ∀ cell b, w.kept cell → s.store.read? cell = some b → t.store.read? cell = some b
  /-- The store is in order. -/
  orderly : w.ordered → t.store.Orderly
  /-- What has been bound persists. -/
  later : w.ordered → s.store.Later t.store

namespace State

variable {w : Terms σ} {gain gain' : Set Symbol} {u : Store (Binding σ)} {s t t' : State σ}

/-- A state is met after its own store. -/
theorem Fits.here (hs : s.Fits w u) : s.Fits w s.store :=
  { hs with later := fun _ => .refl s.store }

/-- The state in another lexical scope. -/
theorem Fits.inScope (hs : s.Fits w u) (hstore : t.store = s.store)
    (hlexical : w.ordered → s.store.Lexical t.scope.frames) : t.Fits w u where
  opened := hstore ▸ hs.opened
  orderly := hstore ▸ hs.orderly
  lexical := hstore ▸ hlexical
  later := hstore ▸ hs.later

/-- A frame has been opened. -/
theorem Fits.newChild (hs : s.Fits w u) (parent : Scope) :
    { s with store := (s.store.newChild parent).2 : State σ }.Fits w u where
  opened := Nat.le_trans hs.opened (Store.Gains.newChild 0 s.scope.frame s.store parent).opened
  orderly h := (hs.orderly h).newChild parent
  lexical h := (hs.lexical h).later (.newChild s.store parent)
  later h := (hs.later h).trans (.newChild s.store parent)

namespace Leads

theorem refl (gain : Set Symbol) (hs : s.Fits w u) : s.Leads w gain s where
  scope := rfl
  gains := .refl w.old s.scope.frame gain s.store
  keeps _ _ _ := id
  orderly := hs.orderly
  later _ := .refl s.store

theorem trans (h : s.Leads w gain t) (h' : t.Leads w gain' t') (hone : gain = ∅ ∨ gain' = ∅) :
    s.Leads w (gain ∪ gain') t' where
  scope := h'.scope.trans h.scope
  gains := h.gains.trans (h.scope ▸ h'.gains) hone
  keeps cell b hcell hb := h'.keeps cell b hcell (h.keeps cell b hcell hb)
  orderly := h'.orderly
  later hw := (h.later hw).trans (h'.later hw)

theorem mono (h : s.Leads w gain t) (hsub : gain ⊆ gain') : s.Leads w gain' t :=
  { h with gains := h.gains.mono hsub }

/-- Without new names there may be some. -/
theorem weaken (h : s.Leads w ∅ t) (gain : Set Symbol) : s.Leads w gain t :=
  h.mono (Set.empty_subset gain)

/-- Only the stores and the scopes matter. -/
theorem congr (h : s.Leads w gain t) (hstore : t'.store = t.store) (hscope : t'.scope = t.scope) :
    s.Leads w gain t' where
  scope := hscope.trans h.scope
  gains := hstore ▸ h.gains
  keeps := hstore ▸ h.keeps
  orderly := hstore ▸ h.orderly
  later := hstore ▸ h.later

/-- In a new frame the names do not count. -/
theorem of_new (h : s.Leads w gain t) (hnew : w.old ≤ s.scope.frame.index) : s.Leads w gain' t :=
  { h with gains := h.gains.of_new hnew _ }

/-- Whatever can be met before can be met afterwards. -/
theorem fits (h : s.Leads w gain t) (hs : s.Fits w u) : t.Fits w u where
  opened := Nat.le_trans hs.opened h.gains.opened
  orderly := h.orderly
  lexical hw := h.scope ▸ (hs.lexical hw).later (h.later hw)
  later hw := (hs.later hw).trans (h.later hw)

/-- A frame is opened. -/
theorem newChild (hs : s.Fits w u) (parent : Scope) :
    s.Leads w ∅ { s with store := (s.store.newChild parent).2 } where
  scope := rfl
  gains := .newChild w.old s.scope.frame s.store parent
  keeps _ _ _ := id
  orderly hw := (hs.orderly hw).newChild parent
  later _ := .newChild s.store parent

end Leads

end State

/-! ## Executions that leave the store alone -/

/-- The execution changes neither the store nor the scope. -/
def Exec.Still (x : Exec σ α) : Prop :=
  ∀ s : State σ, (endState (x s)).store = s.store ∧ (endState (x s)).scope = s.scope

namespace Exec.Still

variable {x : Exec σ α} {k : α → Exec σ β}

theorem pure (a : α) : Exec.Still (Pure.pure a : Exec σ α) :=
  fun _ => ⟨rfl, rfl⟩

theorem fail (cause : Cause) : Exec.Still (Exec.fail cause : Exec σ α) :=
  fun _ => ⟨rfl, rfl⟩

theorem get : Exec.Still (MonadState.get : Exec σ (State σ)) :=
  fun _ => ⟨rfl, rfl⟩

theorem seek (p : Nat) : Exec.Still (Exec.seek p : Exec σ Unit) :=
  fun _ => ⟨rfl, rfl⟩

theorem lift (result : Except Error α) : Exec.Still (Exec.lift result : Exec σ α) := by
  intro s
  cases result <;> exact ⟨rfl, rfl⟩

theorem decode (decoder : Decoder α) : Exec.Still (Exec.decode decoder : Exec σ α) := by
  intro s
  rw [Exec.decode]
  split <;> exact ⟨rfl, rfl⟩

theorem bind (hx : x.Still) (hk : ∀ a, (k a).Still) : (x >>= k).Still := by
  intro s
  have hfirst := hx s
  cases hs : x s with
  | ok a t =>
    rw [hs] at hfirst
    obtain ⟨hstore, hscope⟩ := hk a t
    rw [bind_of_ok hs]
    exact ⟨hstore.trans hfirst.1, hscope.trans hfirst.2⟩
  | error stop t =>
    rw [hs] at hfirst
    rw [bind_of_error hs]
    exact hfirst

theorem position : Exec.Still (Exec.position : Exec σ Nat) :=
  get.bind fun _ => pure _

theorem qualify (name : Symbol) : Exec.Still (Exec.qualify name : Exec σ QualifiedName) :=
  get.bind fun _ => pure _

theorem read (cell : CellId) : Exec.Still (Exec.read cell : Exec σ (Binding σ)) :=
  get.bind fun _ => pure _

theorem bindingOf (operand : Operand) :
    Exec.Still (Exec.bindingOf operand : Exec σ (Binding σ)) := by
  cases operand with
  | value v => exact pure _
  | cell cell => exact read cell

theorem valueOf (operand : Operand) : Exec.Still (Exec.valueOf operand : Exec σ Value) := by
  cases operand with
  | value v => exact pure v
  | cell cell => exact (read cell).bind fun _ => pure _

theorem resolve (names : NameTable) (name : Symbol) :
    Exec.Still (Exec.resolve names name : Exec σ CellId) := by
  refine get.bind fun s => get.bind fun t => ?_
  cases s.store.lookup? t.scope name with
  | some cell => exact pure cell
  | none => exact fail _

theorem moduleOf (operand : Operand) :
    Exec.Still (Machine.moduleOf operand : Exec σ ModuleInfo) := by
  cases operand with
  | value v => exact fail _
  | cell cell =>
    refine (read cell).bind fun binding => ?_
    cases binding with
    | module info => exact pure info
    | _ => exact fail _

theorem callHost (f : HostFunction σ) (args : List Value) :
    Exec.Still (Machine.callHost f args) := by
  intro s
  rw [Machine.callHost]
  split <;> exact ⟨rfl, rfl⟩

theorem emitLine (m : Setup σ) (line : String) : Exec.Still (Machine.emitLine m line) := by
  intro s
  rw [Machine.emitLine_eq]
  split <;> exact ⟨rfl, rfl⟩

theorem countStatement (m : Setup σ) : Exec.Still (Machine.countStatement m) := by
  intro s
  rcases Machine.countStatement_cases m s with hlt | ⟨limit, hfuel, hle⟩
  · rw [Machine.countStatement_of_lt hlt]
    exact ⟨rfl, rfl⟩
  · rw [Machine.countStatement_of_le hfuel hle]
    exact ⟨rfl, rfl⟩

end Exec.Still

/-- A result that is thrown away does not change where an execution ends. -/
theorem endState_bind_pure (x : Exec σ α) (b : β) (s : State σ) :
    endState ((x >>= fun _ => pure b) s) = endState (x s) := by
  cases hs : x s with
  | ok a t => rw [bind_of_ok hs]; rfl
  | error stop t => rw [bind_of_error hs]; rfl

namespace State.Leads

variable {w : Terms σ} {gain gain' : Set Symbol} {s t : State σ} {x : Exec σ α} {k : α → Exec σ β}

/-- The execution that comes next leaves the store alone. -/
theorem afterStill (h : s.Leads w gain t) (hsub : gain ⊆ gain') (hx : x.Still)
    (hk : ∀ a t', x t = .ok a t' → t'.store = t.store → s.Leads w gain t' →
      s.Leads w gain' (endState (k a t'))) : s.Leads w gain' (endState ((x >>= k) t)) := by
  obtain ⟨hstore, hscope⟩ := hx t
  cases hend : x t with
  | ok a t' =>
    rw [hend] at hstore hscope
    rw [bind_of_ok hend]
    exact hk a t' hend hstore (h.congr hstore hscope)
  | error stop t' =>
    rw [hend] at hstore hscope
    rw [bind_of_error hend]
    exact (h.congr hstore hscope).mono hsub

/-- A symbol is bound in the current frame or in a new one. -/
theorem bindIn (h : s.Leads w ∅ t) (names : NameTable) {scope : Scope} (name : Symbol)
    {binding : Binding σ}
    (hgain : (scope.frame = s.scope.frame ∧ name ∈ gain) ∨ w.old ≤ scope.frame.index)
    (hbind : t.store.local? scope.frame name = none → w.ordered →
      (t.store.bind scope name binding).2.Orderly ∧
        s.store.Later (t.store.bind scope name binding).2) :
    s.Leads w gain (endState (Exec.bindIn names scope name binding t)) := by
  by_cases hbound : t.store.bindsLocally scope name
  · rw [Exec.bindIn, if_pos hbound]
    exact h.weaken gain
  · rw [Exec.bindIn, if_neg hbound]
    have hunbound : t.store.local? scope.frame name = none := by
      simpa [Store.bindsLocally] using hbound
    have hgains := Store.Gains.bind w.old hunbound binding
    refine ⟨h.scope, ?_, fun cell b hcell hb => ?_, fun hw => (hbind hunbound hw).1,
      fun hw => (hbind hunbound hw).2⟩
    · have hgain' : t.store.Gains w.old s.scope.frame gain (t.store.bind scope name binding).2 := by
        rcases hgain with ⟨hframe, hname⟩ | hnew
        · rw [hframe] at hgains
          exact hgains.mono (Set.singleton_subset_iff.2 hname)
        · exact hgains.of_new hnew _
      have hboth := h.gains.trans hgain' (.inl rfl)
      rwa [Set.empty_union] at hboth
    · exact t.store.read?_bind_of_read? (h.keeps cell b hcell hb)

end State.Leads

/-! ## Acting -/

/-- On these terms the second execution leads from the state to its end; and if stores are in order
then the first execution does the same, unless it is stopped before. -/
structure Acts (w : Terms σ) (gain : Set Symbol) (x x' : Exec σ α) (s : State σ) : Prop where
  /-- Where the second execution ends. -/
  leads : s.Leads w gain (endState (x' s))
  /-- Where the first execution ends. -/
  same : w.ordered → x s = x' s ∨
    ∃ stop t, x s = .error stop t ∧ w.cut t.store ∧ t.store.Later (endState (x' s)).store

namespace Acts

variable {w : Terms σ} {gain gain' : Set Symbol} {u : Store (Binding σ)} {x x' : Exec σ α}
  {k k' : α → Exec σ β} {s : State σ}

theorem of_leads (h : s.Leads w gain (endState (x s))) : Acts w gain x x s :=
  ⟨h, fun _ => .inl rfl⟩

theorem still (hs : s.Fits w u) (hx : x.Still) : Acts w gain x x s := by
  obtain ⟨hstore, hscope⟩ := hx s
  exact of_leads ((State.Leads.refl gain hs).congr hstore hscope)

theorem mono (h : Acts w gain x x' s) (hsub : gain ⊆ gain') : Acts w gain' x x' s :=
  { h with leads := h.leads.mono hsub }

/-- In a new frame the names do not count. -/
theorem of_new (h : Acts w gain x x' s) (hnew : w.old ≤ s.scope.frame.index) :
    Acts w gain' x x' s :=
  { h with leads := h.leads.of_new hnew }

/-- Only what the executions do from this state matters. -/
theorem congr {y y' : Exec σ α} (h : Acts w gain x x' s) (hx : y s = x s) (hx' : y' s = x' s) :
    Acts w gain y y' s := by
  refine ⟨?_, ?_⟩
  · rw [hx']
    exact h.leads
  · rw [hx, hx']
    exact h.same

/-- The first execution is stopped at once. -/
theorem stopped {y : Exec σ α} (h : Acts w gain y x' s) {stop : Stop} (hx : x s = .error stop s)
    (hcut : w.ordered → w.cut s.store) : Acts w gain x x' s where
  leads := h.leads
  same hw := .inr ⟨stop, s, hx, hcut hw, h.leads.later hw⟩

/-! ### One after the other -/

/-- One of the two parts binds no name. -/
theorem bind (hs : s.Fits w u) (hx : Acts w gain x x' s) (hone : gain = ∅ ∨ gain' = ∅)
    (hk : ∀ a t, x' s = .ok a t → s.Leads w gain t → t.Fits w u → Acts w gain' (k a) (k' a) t) :
    Acts w (gain ∪ gain') (x >>= k) (x' >>= k') s := by
  have hleads := hx.leads
  have hsame := hx.same
  cases hend : x' s with
  | error stop t =>
    rw [hend] at hleads hsame
    refine ⟨?_, fun hw => ?_⟩
    · rw [bind_of_error hend]
      exact hleads.mono Set.subset_union_left
    · rw [bind_of_error hend]
      rcases hsame hw with heq | ⟨stop', t', heq, hcut, hlater⟩
      · exact .inl (bind_of_error heq)
      · exact .inr ⟨stop', t', bind_of_error heq, hcut, hlater⟩
  | ok a t =>
    rw [hend] at hleads hsame
    have hrest := hk a t hend hleads (hleads.fits hs)
    refine ⟨?_, fun hw => ?_⟩
    · rw [bind_of_ok hend]
      exact hleads.trans hrest.leads hone
    · rw [bind_of_ok hend]
      -- Either the first execution has come as far, or it has been stopped before.
      rcases hsame hw with heq | ⟨stop, t', heq, hcut, hlater⟩
      · rw [bind_of_ok heq]
        exact hrest.same hw
      · exact .inr ⟨stop, t', bind_of_error heq, hcut, hlater.trans (hrest.leads.later hw)⟩

/-- Names are bound by the second part only. -/
theorem andThen (hs : s.Fits w u) (hx : Acts w ∅ x x' s)
    (hk : ∀ a t, x' s = .ok a t → s.Leads w ∅ t → t.Fits w u → Acts w gain (k a) (k' a) t) :
    Acts w gain (x >>= k) (x' >>= k') s := by
  have h := bind hs hx (.inl rfl) hk
  rwa [Set.empty_union] at h

/-- Names are bound by the first part only. -/
theorem before (hs : s.Fits w u) (hx : Acts w gain x x' s)
    (hk : ∀ a t, x' s = .ok a t → s.Leads w gain t → t.Fits w u → Acts w ∅ (k a) (k' a) t) :
    Acts w gain (x >>= k) (x' >>= k') s := by
  have h := bind hs hx (.inr rfl) hk
  rwa [Set.union_empty] at h

/-- The first part leaves the store alone. -/
theorem afterStill {x : Exec σ α} (hs : s.Fits w u) (hx : x.Still)
    (hk : ∀ a t, x s = .ok a t → t.store = s.store → t.scope = s.scope → t.Fits w u →
      Acts w gain (k a) (k' a) t) : Acts w gain (x >>= k) (x >>= k') s := by
  refine andThen hs (still hs hx) fun a t heq _ ht => ?_
  obtain ⟨hstore, hscope⟩ := hx s
  rw [heq] at hstore hscope
  exact hk a t heq hstore hscope ht

theorem mapError {f : Error → Error} (h : Acts w gain x x' s) :
    Acts w gain (Exec.mapError f x) (Exec.mapError f x') s := by
  have hend := endState_mapError f x' s
  refine ⟨hend ▸ h.leads, fun hw => ?_⟩
  rw [hend]
  rcases h.same hw with heq | ⟨stop, t, heq, hcut, hlater⟩
  · left
    rw [Exec.mapError, heq, Exec.mapError]
  · right
    cases stop with
    | exhausted => exact ⟨.exhausted, t, by rw [Exec.mapError, heq], hcut, hlater⟩
    | failed e => exact ⟨.failed (f e), t, by rw [Exec.mapError, heq], hcut, hlater⟩

/-! ### Other contexts -/

/-- In another scope, either nothing is bound or the frame is new. -/
theorem within {enter : State σ → State σ} {leave : State σ → State σ → State σ}
    (henter : (enter s).store = s.store) (hstore : ∀ t, (leave s t).store = t.store)
    (hscope : ∀ t, t.scope = (enter s).scope → (leave s t).scope = s.scope)
    (hnew : gain = ∅ ∨ w.old ≤ (enter s).scope.frame.index) (h : Acts w gain x x' (enter s)) :
    Acts w ∅ (Exec.within enter leave x) (Exec.within enter leave x') s := by
  have hend := endState_within enter leave x' s
  have hleads : s.Leads w ∅ (leave s (endState (x' (enter s)))) := by
    have hinside := h.leads
    refine ⟨hscope _ hinside.scope, ?_, ?_, ?_, ?_⟩
    · rw [hstore, ← henter]
      rcases hnew with rfl | hnew
      · exact hinside.gains.elsewhere _
      · exact hinside.gains.of_new hnew _
    · rw [hstore, ← henter]
      exact hinside.keeps
    · rw [hstore]
      exact hinside.orderly
    · rw [hstore, ← henter]
      exact hinside.later
  refine ⟨hend ▸ hleads, fun hw => ?_⟩
  rw [hend, hstore]
  rcases h.same hw with heq | ⟨stop, t, heq, hcut, hlater⟩
  · left
    rw [Exec.within, Exec.within, heq]
  · refine .inr ⟨stop, leave s t, ?_, ?_, ?_⟩
    · rw [Exec.within, heq]
      rfl
    · rw [hstore]
      exact hcut
    · rw [hstore]
      exact hlater

theorem inScope {scope : Scope} (hnew : gain = ∅ ∨ w.old ≤ scope.frame.index)
    (h : Acts w gain x x' { s with scope }) :
    Acts w ∅ (Exec.inScope scope x) (Exec.inScope scope x') s :=
  within rfl (fun _ => rfl) (fun _ _ => rfl) hnew h

theorem inModule {name : Symbol}
    (h : Acts w ∅ x x' { s with modules := s.modules ++ [name] }) :
    Acts w ∅ (Exec.inModule name x) (Exec.inModule name x') s :=
  within rfl (fun _ => rfl) (fun _ => id) (.inl rfl) h

theorem inCall {entry : Nat} {scope : Scope} {modules : List Symbol}
    (hnew : w.old ≤ scope.frame.index)
    (h : Acts w gain x x' { s with position := entry, scope, modules, depth := s.depth + 1 }) :
    Acts w ∅ (Exec.inCall entry scope modules x) (Exec.inCall entry scope modules x') s :=
  within rfl (fun _ => rfl) (fun _ _ => rfl) (.inr hnew) h

theorem withinDepth (m : Setup σ) (hs : s.Fits w u) (h : Acts w gain x x' s) :
    Acts w gain (Machine.withinDepth m x) (Machine.withinDepth m x') s := by
  by_cases hdepth : m.config.maxCallDepth ≤ s.depth
  · have hfail : ∀ y : Exec σ α, Machine.withinDepth m y s =
        Exec.fail (.limitExceeded (.callDepth m.config.maxCallDepth)) s := fun y => if_pos hdepth
    refine ⟨?_, fun _ => .inl ((hfail x).trans (hfail x').symm)⟩
    rw [hfail]
    exact .refl gain hs
  · have hbody : ∀ y : Exec σ α, Machine.withinDepth m y s = y s := fun y => if_neg hdepth
    refine ⟨?_, fun hw => ?_⟩
    · rw [hbody]
      exact h.leads
    · rw [hbody, hbody]
      exact h.same hw

/-! ### Frames and cells -/

/-- A frame is opened, and the rest goes on with it. -/
theorem openIn (hs : s.Fits w u) {parent : Scope} {k k' : Scope → Exec σ β}
    (hk : Acts w gain (k (s.store.newChild parent).1) (k' (s.store.newChild parent).1)
      { s with store := (s.store.newChild parent).2 }) :
    Acts w gain (Exec.openIn parent >>= k) (Exec.openIn parent >>= k') s := by
  have hopen : Exec.openIn parent s = .ok (s.store.newChild parent).1
      { s with store := (s.store.newChild parent).2 } := rfl
  refine andThen hs (of_leads ?_) fun scope t heq _ _ => ?_
  · rw [hopen]
    exact .newChild hs parent
  · rw [hopen] at heq
    cases heq
    exact hk

/-- A scope is opened, and the rest goes on with it. Its frame is new and its frames are
lexical. -/
theorem openScope (hs : s.Fits w u) {k k' : Scope → Exec σ β}
    (hk : ∀ scope t, w.old ≤ scope.frame.index → t.Fits w u →
      (w.ordered → t.store.Lexical scope.frames) → Acts w gain (k scope) (k' scope) t) :
    Acts w gain (Exec.openScope >>= k) (Exec.openScope >>= k') s := by
  have hopen : ∀ k : Scope → Exec σ β,
      (Exec.openScope >>= k) s = (Exec.openIn s.scope >>= k) s := fun _ => rfl
  have h : Acts w gain (Exec.openIn s.scope >>= k) (Exec.openIn s.scope >>= k') s :=
    openIn hs (hk _ _ hs.opened (hs.newChild s.scope) fun hw =>
      (hs.lexical hw).newChild (hs.orderly hw))
  refine ⟨?_, fun hw => ?_⟩
  · rw [hopen]
    exact h.leads
  · rw [hopen, hopen]
    exact h.same hw

/-- A symbol is bound, in the current frame or in a new one, which is no closure. -/
theorem bindIn (hs : s.Fits w u) (names : NameTable) {scope : Scope} (name : Symbol)
    {binding : Binding σ}
    (hgain : (scope.frame = s.scope.frame ∧ name ∈ gain) ∨ w.old ≤ scope.frame.index)
    (hfree : w.ordered → s.store.Unreserved scope.frame)
    (hadmits : w.ordered → s.store.Admits binding) (hne : ∀ f, binding ≠ .function f) :
    Acts w gain (Exec.bindIn names scope name binding) (Exec.bindIn names scope name binding)
      s := by
  refine of_leads ((State.Leads.refl ∅ hs).bindIn names name hgain fun hunbound hw => ⟨?_, ?_⟩)
  · exact (hs.orderly hw).bind hunbound (hfree hw) (hadmits hw) hne
  · exact (Store.Later.refl s.store).bind hunbound fun f hf => absurd hf (hne f)

/-- A symbol is bound in the current scope. -/
theorem bindHere (hs : s.Fits w u) (names : NameTable) (name : Symbol) {binding : Binding σ}
    (hadmits : w.ordered → s.store.Admits binding) (hne : ∀ f, binding ≠ .function f) :
    Acts w {name} (Exec.bindHere names name binding) (Exec.bindHere names name binding) s := by
  have h : Acts w {name} (Exec.bindIn names s.scope name binding) _ s :=
    bindIn hs names name (.inl ⟨rfl, rfl⟩)
      (fun hw => (hs.lexical hw).unreserved _ rfl) hadmits hne
  exact ⟨h.leads, h.same⟩

/-- A variable is written. -/
theorem write (hs : s.Fits w u) {cell : CellId} (hcell : w.ordered → s.store.Assignable cell)
    (hkept : ¬ w.kept cell) (value : Value) :
    Acts w ∅ (modify fun s => { s with store := s.store.write cell (.variable false value) })
      (modify fun s => { s with store := s.store.write cell (.variable false value) }) s := by
  refine of_leads ⟨rfl, .write _ _ _ _ _, fun other b hother hb => ?_, fun hw => ?_, fun hw => ?_⟩
  · have hne : other ≠ cell := by
      rintro rfl
      exact hkept hother
    exact (s.store.read?_write_of_ne hne _).trans hb
  · exact (hs.orderly hw).write (hcell hw) value
  · obtain ⟨old, hold⟩ := (hcell hw).isVariable
    exact .write hold value

/-! ### Repetition -/

theorem collect (hx : ∀ t : State σ, t.Fits w u → Acts w ∅ x x' t) (n : Nat) :
    ∀ s : State σ, s.Fits w u → Acts w ∅ (Exec.collect x n) (Exec.collect x' n) s := by
  induction n with
  | zero => exact fun s hs => still hs (.pure _)
  | succ n ih =>
    intro s hs
    refine andThen hs (hx s hs) fun a t _ _ ht => ?_
    exact andThen ht (ih t ht) fun _ _ _ _ hfits => still hfits (.pure _)

/-- Statements are executed in a new frame. -/
theorem sequence {body body' : Exec σ Flow}
    (hbody : ∀ t : State σ, t.Fits w u → w.old ≤ t.scope.frame.index → Acts w ∅ body body' t)
    (n : Nat) : ∀ s : State σ, s.Fits w u → w.old ≤ s.scope.frame.index →
      Acts w ∅ (Exec.sequence body n) (Exec.sequence body' n) s := by
  induction n with
  | zero => exact fun s hs _ => still hs (.pure _)
  | succ n ih =>
    intro s hs hnew
    rw [Exec.sequence_succ, Exec.sequence_succ]
    refine andThen hs (hbody s hs hnew) fun flow t _ hleads ht => ?_
    cases flow with
    | normal => exact ih t ht (hleads.scope ▸ hnew)
    | breakLoop | returnValue => exact still ht (.pure _)

/-- Turns are made in a new frame. -/
theorem iterate {turn turn' : Exec σ (Option α)}
    (hturn : ∀ t : State σ, t.Fits w u → w.old ≤ t.scope.frame.index → Acts w ∅ turn turn' t)
    (n : Nat) : ∀ s : State σ, s.Fits w u → w.old ≤ s.scope.frame.index →
      Acts w ∅ (Exec.iterate turn n) (Exec.iterate turn' n) s := by
  induction n with
  | zero => exact fun s hs _ => of_leads (.refl ∅ hs)
  | succ n ih =>
    intro s hs hnew
    rw [Exec.iterate_succ, Exec.iterate_succ]
    refine andThen hs (hturn s hs hnew) fun next t _ hleads ht => ?_
    cases next with
    | none => exact ih t ht (hleads.scope ▸ hnew)
    | some a => exact still ht (.pure _)

end Acts

end Bytewalk
