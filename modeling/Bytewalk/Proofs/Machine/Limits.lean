import Bytewalk.Program.Builder
import Bytewalk.Proofs.Code.Faults
import Bytewalk.Proofs.Machine.Congruence
import Bytewalk.Proofs.Machine.Following
import Bytewalk.Proofs.Machine.Termination

/-!
# Limits

A limit stops a run and does nothing else. Two runs of one program, of which one has the tighter
limits, are the same up to where the tighter limits stop one of them: `Cuts` says this of
executions, and it is a congruence. So is `Counted`, which says that the statements are counted up
to the limit and that the next one stops the run.
-/

namespace Bytewalk

variable {σ α β : Type}

/-- The state in which an execution ends, however it ends. -/
def endState : EStateM.Result Stop (State σ) α → State σ
  | .ok _ t => t
  | .error _ t => t

/-! ## Contexts -/

namespace Exec

/-- The end of an execution, with the state changed to what is found outside. -/
def left (leave : State σ → State σ → State σ) (s : State σ) :
    EStateM.Result Stop (State σ) α → EStateM.Result Stop (State σ) α
  | .ok a t => .ok a (leave s t)
  | .error stop t => .error stop (leave s t)

/-- Executes in a state changed on the way in and on the way out. -/
def within (enter : State σ → State σ) (leave : State σ → State σ → State σ) (body : Exec σ α) :
    Exec σ α := fun s =>
  left leave s (body (enter s))

end Exec

/-- Where an execution ends does not depend on what is said of its error. -/
theorem endState_mapError (f : Error → Error) (x : Exec σ α) (s : State σ) :
    endState (Exec.mapError f x s) = endState (x s) := by
  rw [Exec.mapError]
  split
  · rename_i e t hs
    rw [hs]
    rfl
  · rfl

/-- An execution in another context ends where it does inside, with the state changed. -/
theorem endState_within (enter : State σ → State σ) (leave : State σ → State σ → State σ)
    (x : Exec σ α) (s : State σ) :
    endState (Exec.within enter leave x s) = leave s (endState (x (enter s))) := by
  rw [Exec.within]
  cases x (enter s) <;> rfl

/-! ## Configurations -/

/-- No limit of the first configuration is wider than that of the second, and lines go to the same
place. -/
structure Config.Tighter (c c' : Config) : Prop where
  /-- No more calls may be open. -/
  depth : c.maxCallDepth ≤ c'.maxCallDepth
  /-- No more statements may be executed; to have no limit is widest. -/
  fuel : ∀ limit', c'.fuel = some limit' → ∃ limit, c.fuel = some limit ∧ limit ≤ limit'
  /-- Lines are echoed by both or by none. -/
  echo : c.echo = c'.echo

theorem Config.Tighter.refl (c : Config) : c.Tighter c :=
  ⟨Nat.le_refl _, fun limit h => ⟨limit, h, Nat.le_refl limit⟩, rfl⟩

/-- A limit of the first configuration that the second does not have stops an execution. -/
inductive Config.Stops (c c' : Config) : Stop → Prop
  | callDepth {e : Error} (hcause : e.cause = .limitExceeded (.callDepth c.maxCallDepth))
      (hwider : c.maxCallDepth < c'.maxCallDepth) : Stops c c' (.failed e)
  | fuel {e : Error} {limit : Nat} (hcause : e.cause = .limitExceeded (.fuel limit))
      (hfuel : c.fuel = some limit) (hwider : c'.fuel ≠ some limit) : Stops c c' (.failed e)

namespace Config.Stops

variable {c c' : Config}

/-- Nothing but a limit stops an execution in this way. -/
theorem category_eq {stop : Stop} (h : c.Stops c' stop) :
    ∃ e, stop = .failed e ∧ e.category = .limit := by
  cases h with
  | callDepth hcause | fuel hcause => exact ⟨_, rfl, by rw [Error.category, hcause]; rfl⟩

/-- It is the cause that counts. -/
theorem congr {e e' : Error} (hcause : e'.cause = e.cause) (h : c.Stops c' (.failed e)) :
    c.Stops c' (.failed e') := by
  cases h with
  | callDepth h hwider => exact .callDepth (hcause.trans h) hwider
  | fuel h hfuel hwider => exact .fuel (hcause.trans h) hfuel hwider

/-- No configuration is wider than itself. -/
theorem irrefl {stop : Stop} : ¬ c.Stops c stop := by
  intro h
  cases h with
  | callDepth _ hwider => exact Nat.lt_irrefl _ hwider
  | fuel _ hfuel hwider => exact hwider hfuel

end Config.Stops

/-- An execution is cut short by a limit or for want of steps. -/
def Config.CutsShort (c c' : Config) (stop : Stop) : Prop :=
  stop = .exhausted ∨ c.Stops c' stop

/-! ## Progress -/

/-- From one state to the other lines may have been added and statements counted. -/
structure State.Before (s t : State σ) : Prop where
  /-- The collected lines are the first ones. -/
  output : s.output.toList <+: t.output.toList
  /-- The echoed lines are the first ones. -/
  echoed : s.echoed.toList <+: t.echoed.toList
  /-- No statement has been forgotten. -/
  executed : s.executed ≤ t.executed

namespace State.Before

variable {s t u : State σ}

@[refl]
theorem refl (s : State σ) : s.Before s :=
  ⟨List.prefix_rfl, List.prefix_rfl, Nat.le_refl _⟩

theorem trans (h : s.Before t) (h' : t.Before u) : s.Before u :=
  ⟨h.output.trans h'.output, h.echoed.trans h'.echoed, Nat.le_trans h.executed h'.executed⟩

end State.Before

/-- The states differ in nothing but where the execution is. -/
structure State.Alike (s t : State σ) : Prop where
  /-- The collected lines. -/
  output : t.output = s.output
  /-- The echoed lines. -/
  echoed : t.echoed = s.echoed
  /-- The counted statements. -/
  executed : t.executed = s.executed
  /-- Frames and cells. -/
  store : t.store = s.store

theorem State.Alike.before {s t : State σ} (h : s.Alike t) : s.Before t :=
  ⟨h.output ▸ List.prefix_rfl, h.echoed ▸ List.prefix_rfl, Nat.le_of_eq h.executed.symm⟩

theorem State.Alike.symm {s t : State σ} (h : s.Alike t) : t.Alike s :=
  ⟨h.output.symm, h.echoed.symm, h.executed.symm, h.store.symm⟩

/-- The host functions in a store are lent ones. -/
def Store.Holds (lent : HostFunction σ → Prop) (store : Store (Binding σ)) : Prop :=
  ∀ cell binding, store.read? cell = some binding → Machine.Binds lent binding

/-- Nothing has been printed or counted, and no host function has been bound that is not lent. -/
structure State.Quiet (lent : HostFunction σ → Prop) (s t : State σ) : Prop where
  /-- No line has been collected. -/
  output : t.output = s.output
  /-- No line has been echoed. -/
  echoed : t.echoed = s.echoed
  /-- No statement has been counted. -/
  executed : t.executed = s.executed
  /-- New host functions are lent ones. -/
  holds : s.store.Holds lent → t.store.Holds lent

namespace State.Quiet

variable {lent : HostFunction σ → Prop} {s t : State σ}

theorem before (h : State.Quiet lent s t) : s.Before t :=
  ⟨h.output ▸ List.prefix_rfl, h.echoed ▸ List.prefix_rfl, Nat.le_of_eq h.executed.symm⟩

end State.Quiet

/-! ## Quiet executions -/

namespace Machine

variable {m : Setup σ} {lent : HostFunction σ → Prop}

/-- A decoder fails over the form of the image. -/
theorem Reads.failsOverForm {image : Image} {decoder : Decoder α} (h : Reads image decoder) :
    decoder.FailsOverForm := by
  cases h with
  | byte | symbol => exact Decoder.failsOverForm_of_ok fun _ => ⟨_, _, rfl⟩
  | present => exact Decoder.failsOverForm_present
  | count least => exact Decoder.failsOverForm_count least
  | literal => exact Decoder.failsOverForm_literal
  | passStatement | passOptionalStatement => exact Decoder.failsOverForm_traverse _
  | members => exact Decoder.failsOverForm_members

/-- From the state the execution prints and counts nothing, and it exceeds no limit. -/
def IsQuiet (lent : HostFunction σ → Prop) (x : Exec σ α) (s : State σ) : Prop :=
  State.Quiet lent s (endState (x s)) ∧ ∀ e t, x s = .error (.failed e) t → e.category ≠ .limit

theorem isQuiet_of_ok {x : Exec σ α} {s t : State σ} {a : α} (h : x s = .ok a t)
    (ht : State.Quiet lent s t) : IsQuiet lent x s := by
  rw [IsQuiet, h]
  refine ⟨ht, fun e u heq => ?_⟩
  cases heq

theorem isQuiet_of_failed {x : Exec σ α} {s t : State σ} {e : Error}
    (h : x s = .error (.failed e) t) (ht : State.Quiet lent s t) (he : e.category ≠ .limit) :
    IsQuiet lent x s := by
  rw [IsQuiet, h]
  refine ⟨ht, fun e' t' heq => ?_⟩
  cases heq
  exact he

/-- Elementary executions are quiet. -/
theorem Elementary.isQuiet {x : Exec σ α} (h : Elementary m lent x) (s : State σ) :
    IsQuiet lent x s := by
  have hsame : State.Quiet lent s s := ⟨rfl, rfl, rfl, id⟩
  cases h with
  | pure a => exact isQuiet_of_ok (a := a) rfl hsame
  | get => exact isQuiet_of_ok (a := s) rfl hsame
  | exhaust =>
    refine ⟨hsame, fun e t heq => ?_⟩
    cases heq
  | fail hcause => exact isQuiet_of_failed (Exec.fail_eq s _) hsame hcause
  | @lift _ result hresult =>
    cases result with
    | ok a => exact isQuiet_of_ok (a := a) rfl hsame
    | error e => exact isQuiet_of_failed (e := e) rfl hsame (hresult e rfl)
  | @decode _ decoder hdecoder =>
    cases hread : decoder s.position with
    | ok a p => exact isQuiet_of_ok (Exec.decode_of_ok s hread) ⟨rfl, rfl, rfl, id⟩
    | error e p =>
      refine isQuiet_of_failed (Exec.decode_of_error s hread) ⟨rfl, rfl, rfl, id⟩ ?_
      rw [(hdecoder.failsOverForm _ _ _ hread).category_eq]
      decide
  | seek p => exact isQuiet_of_ok (Exec.seek_eq s p) ⟨rfl, rfl, rfl, id⟩
  | openIn parent =>
    exact isQuiet_of_ok (t := { s with store := (s.store.newChild parent).2 }) rfl
      ⟨rfl, rfl, rfl, id⟩
  | bindIn names scope name hlent =>
    -- A name that is bound already is an error, and otherwise the store has one more cell.
    by_cases hbound : s.store.bindsLocally scope name
    · refine isQuiet_of_failed (by rw [Exec.bindIn, if_pos hbound, Exec.fail_eq]) hsame ?_
      exact Category.noConfusion
    · refine isQuiet_of_ok (if_neg hbound) ⟨rfl, rfl, rfl, fun hs cell b hb => ?_⟩
      rcases s.store.read?_bind hb with hold | rfl
      · exact hs cell b hold
      · exact hlent
  | write cell value =>
    refine isQuiet_of_ok (t := { s with store := s.store.write cell (.variable false value) })
      (a := ⟨⟩) rfl ⟨rfl, rfl, rfl, fun hs other b hb => ?_⟩
    rcases s.store.read?_write hb with hold | rfl
    · exact hs other b hold
    · intro name f heq
      cases heq

end Machine

/-! ## Executions that are cut short -/

/-- The first execution is the second one, or it is cut short: it stops for a reason of `K` in a
state that lies before the end of the second one. -/
@[irreducible]
def Cuts (K : Stop → Prop) (x x' : Exec σ α) : Prop :=
  ∀ s, s.Before (endState (x' s)) ∧
    (x s = x' s ∨ ∃ stop t, x s = .error stop t ∧ K stop ∧ t.Before (endState (x' s)))

namespace Cuts

variable {K : Stop → Prop} {m : Setup σ} {c : Config} {x x' : Exec σ α} {k k' : α → Exec σ β}

/-- An execution is itself, if it goes on from where it begins. -/
theorem of_before (h : ∀ s : State σ, s.Before (endState (x s))) : Cuts K x x := by
  rw [Cuts]
  exact fun s => ⟨h s, .inl rfl⟩

/-- Where the first execution ends, the second one is as far or further. -/
theorem before (h : Cuts K x x') (s : State σ) :
    (endState (x s)).Before (endState (x' s)) := by
  rw [Cuts] at h
  rcases (h s).2 with heq | ⟨stop, t, hstop, -, hbefore⟩
  · rw [heq]
  · rw [hstop]
    exact hbefore

/-- Nothing is a part of every execution. -/
theorem exhaust (hK : K .exhausted) (h : Cuts K x x') : Cuts K Exec.exhaust x' := by
  rw [Cuts] at h ⊢
  exact fun s => ⟨(h s).1, .inr ⟨.exhausted, s, rfl, hK, (h s).1⟩⟩

/-- The second of two executions may be given more steps. -/
theorem moreSteps (hK : K .exhausted) {n n' : Nat} (hle : n ≤ n') :
    Machine.MoreSteps (fun {_} => Cuts (σ := σ) K) n n' :=
  .inr ⟨hle, exhaust hK⟩

theorem bind (hx : Cuts K x x') (hk : ∀ a, Cuts K (k a) (k' a)) :
    Cuts K (x >>= k) (x' >>= k') := by
  rw [Cuts] at hx ⊢
  intro s
  obtain ⟨hgoes, hsame⟩ := hx s
  cases hs : x' s with
  | ok a t =>
    rw [hs] at hgoes hsame
    have hrest := hk a
    rw [Cuts] at hrest
    obtain ⟨hgoes', hsame'⟩ := hrest t
    rw [bind_of_ok hs]
    refine ⟨hgoes.trans hgoes', ?_⟩
    -- Either the first execution has come as far, or it has been cut short before.
    rcases hsame with heq | ⟨stop, u, hstop, hK, hbefore⟩
    · rw [bind_of_ok heq]
      exact hsame'
    · exact .inr ⟨stop, u, bind_of_error hstop, hK, hbefore.trans hgoes'⟩
  | error stop t =>
    rw [hs] at hgoes hsame
    rw [bind_of_error hs]
    refine ⟨hgoes, ?_⟩
    rcases hsame with heq | ⟨stop', u, hstop, hK, hbefore⟩
    · exact .inl (bind_of_error heq)
    · exact .inr ⟨stop', u, bind_of_error hstop, hK, hbefore⟩

theorem mapError {f : Error → Error} (hf : ∀ e, K (.failed e) → K (.failed (f e)))
    (h : Cuts K x x') : Cuts K (Exec.mapError f x) (Exec.mapError f x') := by
  rw [Cuts] at h ⊢
  intro s
  obtain ⟨hgoes, hsame⟩ := h s
  rw [endState_mapError]
  refine ⟨hgoes, ?_⟩
  rcases hsame with heq | ⟨stop, t, hstop, hK, hbefore⟩
  · left
    rw [Exec.mapError, heq, Exec.mapError]
  · right
    cases stop with
    | exhausted => exact ⟨.exhausted, t, by rw [Exec.mapError, hstop], hK, hbefore⟩
    | failed e => exact ⟨.failed (f e), t, by rw [Exec.mapError, hstop], hf e hK, hbefore⟩

/-- An execution in another context is cut short as it would be outside. -/
theorem within {enter : State σ → State σ} {leave : State σ → State σ → State σ}
    (henter : ∀ s : State σ, s.Alike (enter s)) (hleave : ∀ s t : State σ, t.Alike (leave s t))
    (h : Cuts K x x') :
    Cuts K (Exec.within enter leave x) (Exec.within enter leave x') := by
  have hend : ∀ s (r : EStateM.Result Stop (State σ) α),
      (endState r).Before (endState (Exec.left leave s r)) := by
    intro s r
    cases r <;> exact (hleave s _).before
  rw [Cuts] at h ⊢
  intro s
  obtain ⟨hgoes, hsame⟩ := h (enter s)
  refine ⟨((henter s).before.trans hgoes).trans (hend s _), ?_⟩
  rcases hsame with heq | ⟨stop, t, hstop, hK, hbefore⟩
  · exact .inl (congrArg (Exec.left leave s) heq)
  · refine .inr ⟨stop, leave s t, congrArg (Exec.left leave s) hstop, hK, ?_⟩
    exact ((hleave s t).symm.before.trans hbefore).trans (hend s _)

/-- The check of the open calls stops the tighter setup first. -/
theorem withinDepth (htight : m.config.Tighter c) (hK : ∀ stop, m.config.Stops c stop → K stop)
    (h : Cuts K x x') :
    Cuts K (Machine.withinDepth m x) (Machine.withinDepth (m.withConfig c) x') := by
  rw [Cuts] at h ⊢
  intro s
  simp only [Machine.withinDepth]
  rcases Nat.lt_or_ge s.depth m.config.maxCallDepth with hdepth | hdepth
  · rw [if_neg (Nat.not_le.2 hdepth),
      if_neg (Nat.not_le.2 (Nat.lt_of_lt_of_le hdepth htight.depth))]
    exact h s
  rw [if_pos hdepth]
  rcases Nat.lt_or_ge s.depth c.maxCallDepth with hwide | hwide
  · -- Only the first setup has as many calls open as it may.
    rw [if_neg (Nat.not_le.2 hwide)]
    exact ⟨(h s).1, .inr ⟨_, s, rfl, hK _ (.callDepth rfl (Nat.lt_of_le_of_lt hdepth hwide)),
      (h s).1⟩⟩
  · rw [if_pos hwide]
    refine ⟨.refl s, ?_⟩
    rcases Nat.lt_or_eq_of_le htight.depth with hlt | heq
    · exact .inr ⟨_, s, rfl, hK _ (.callDepth rfl hlt), .refl s⟩
    · exact .inl (by rw [heq])

/-- The tighter setup is the first to stop counting. -/
theorem countStatement (htight : m.config.Tighter c)
    (hK : ∀ stop, m.config.Stops c stop → K stop) :
    Cuts K (Machine.countStatement m) (Machine.countStatement (m.withConfig c)) := by
  rw [Cuts]
  intro s
  -- The statement is counted by both, even where it stops one of them.
  let counted : State σ := { s with executed := s.executed + 1 }
  have hcounted : s.Before counted := ⟨List.prefix_rfl, List.prefix_rfl, Nat.le_succ _⟩
  have hend : endState (Machine.countStatement (m.withConfig c) s) = counted := by
    rcases Machine.countStatement_cases (m.withConfig c) s with hlt | ⟨limit', hfuel', hle⟩
    · rw [Machine.countStatement_of_lt hlt]
      rfl
    · rw [Machine.countStatement_of_le hfuel' hle]
      rfl
  rw [hend]
  refine ⟨hcounted, ?_⟩
  rcases Machine.countStatement_cases m s with hlt | ⟨limit, hfuel, hle⟩
  · left
    have hlt' : ∀ limit', c.fuel = some limit' → s.executed < limit' := by
      intro limit' hfuel'
      obtain ⟨limit, hfuel, hle⟩ := htight.fuel limit' hfuel'
      exact Nat.lt_of_lt_of_le (hlt limit hfuel) hle
    rw [Machine.countStatement_of_lt hlt, Machine.countStatement_of_lt hlt']
  · rw [Machine.countStatement_of_le hfuel hle]
    by_cases hsame : c.fuel = some limit
    · exact .inl (Machine.countStatement_of_le hsame hle).symm
    · exact .inr ⟨_, counted, rfl, hK _ (.fuel rfl hfuel hsame), .refl counted⟩

/-- A call of a host function prints and counts nothing. -/
theorem callHost (f : HostFunction σ) (args : List Value) :
    Cuts K (Machine.callHost f args) (Machine.callHost f args) := by
  refine of_before fun s => ?_
  rw [Machine.callHost]
  split <;> exact ⟨List.prefix_rfl, List.prefix_rfl, Nat.le_refl _⟩

/-- A printed line comes behind the others. -/
theorem emitLine (htight : m.config.Tighter c) (line : String) :
    Cuts K (Machine.emitLine m line) (Machine.emitLine (m.withConfig c) line) := by
  have hsame : Machine.emitLine (m.withConfig c) line = Machine.emitLine m line := by
    funext s
    rw [Machine.emitLine_eq, Machine.emitLine_eq, htight.echo]
  rw [hsame]
  refine of_before fun s => ?_
  rw [Machine.emitLine_eq, endState]
  split
  · exact ⟨List.prefix_rfl, by simp, Nat.le_refl _⟩
  · exact ⟨by simp, List.prefix_rfl, Nat.le_refl _⟩

/-- To be cut short by a tighter limit is a congruence. -/
theorem congruence (htight : m.config.Tighter c) (hK : ∀ stop, m.config.Stops c stop → K stop)
    (hcause : ∀ e e', e'.cause = e.cause → K (.failed e) → K (.failed e')) :
    Machine.Congruence m c (fun _ => True) (fun {_} => Cuts (σ := σ) K) where
  registered _ := trivial
  elementary h := of_before fun s => (h.isQuiet s).1.before
  bind := bind
  read hk := bind (of_before fun s => .refl s) fun b => hk b fun _ _ _ => trivial
  mapError hf h := mapError (fun e => hcause e _ (hf e)) h
  inScope h := within (fun _ => ⟨rfl, rfl, rfl, rfl⟩) (fun _ _ => ⟨rfl, rfl, rfl, rfl⟩) h
  inModule h := within (fun _ => ⟨rfl, rfl, rfl, rfl⟩) (fun _ _ => ⟨rfl, rfl, rfl, rfl⟩) h
  inCall h := within (fun _ => ⟨rfl, rfl, rfl, rfl⟩) (fun _ _ => ⟨rfl, rfl, rfl, rfl⟩) h
  withinDepth h := withinDepth htight hK h
  callHost _ args := callHost _ args
  emitLine line := emitLine htight line
  countStatement := countStatement htight hK

end Cuts

/-! ## Counted executions -/

/-- An execution stops because so many statements have been counted. -/
def Stop.IsFuel (limit : Nat) : Stop → Prop
  | .failed e => e.cause = .limitExceeded (.fuel limit)
  | .exhausted => False

/-- The statements are counted up to the limit, and the one behind it stops the execution. -/
def Tallied (lent : HostFunction σ → Prop) (limit : Nat) :
    EStateM.Result Stop (State σ) α → Prop
  | .ok _ t => t.store.Holds lent ∧ t.executed ≤ limit
  | .error stop t => t.store.Holds lent ∧
    (t.executed ≤ limit ∧ ¬ stop.IsFuel limit ∨ t.executed = limit + 1 ∧ stop.IsFuel limit)

/-- From every state in which the limit has not been passed, statements are counted. -/
@[irreducible]
def Counted (lent : HostFunction σ → Prop) (limit : Nat) (x : Exec σ α) : Prop :=
  ∀ s, s.store.Holds lent → s.executed ≤ limit → Tallied lent limit (x s)

namespace Counted

variable {m : Setup σ} {lent : HostFunction σ → Prop} {limit : Nat} {x : Exec σ α}
  {k : α → Exec σ β}

theorem elementary (h : Machine.Elementary m lent x) : Counted lent limit x := by
  rw [Counted]
  intro s hstore hle
  obtain ⟨hquiet, hfails⟩ := h.isQuiet s
  cases hs : x s with
  | ok a t =>
    rw [hs] at hquiet
    exact ⟨hquiet.holds hstore, hquiet.executed ▸ hle⟩
  | error stop t =>
    rw [hs] at hquiet
    refine ⟨hquiet.holds hstore, .inl ⟨hquiet.executed ▸ hle, fun hfuel => ?_⟩⟩
    cases stop with
    | exhausted => exact hfuel
    | failed e =>
      -- What an elementary execution fails of is no limit.
      have hcause : e.cause = .limitExceeded (.fuel limit) := hfuel
      exact hfails e t hs (by rw [Error.category, hcause]; rfl)

theorem bind (hx : Counted lent limit x) (hk : ∀ a, Counted lent limit (k a)) :
    Counted lent limit (x >>= k) := by
  rw [Counted] at hx ⊢
  intro s hstore hle
  have hfirst := hx s hstore hle
  cases hs : x s with
  | ok a t =>
    rw [hs] at hfirst
    have hrest := hk a
    rw [Counted] at hrest
    rw [bind_of_ok hs]
    exact hrest t hfirst.1 hfirst.2
  | error stop t =>
    rw [hs] at hfirst
    rw [bind_of_error hs]
    exact hfirst

/-- What has been read of the store holds no host function but a lent one. -/
theorem read {cell : CellId} {k : Binding σ → Exec σ α}
    (hk : ∀ b, Machine.Binds lent b → Counted lent limit (k b)) :
    Counted lent limit (Exec.read cell >>= k) := by
  rw [Counted]
  intro s hstore hle
  rw [bind_of_ok (Exec.read_eq s cell)]
  have hbinds : Machine.Binds lent ((s.store.read? cell).getD default) := by
    -- A cell that is not there reads as one that holds no host function.
    cases hread : s.store.read? cell with
    | none => exact nofun
    | some b => exact hstore cell b hread
  have hrest := hk _ hbinds
  rw [Counted] at hrest
  exact hrest s hstore hle

theorem mapError {f : Error → Error} (hf : ∀ e, (f e).cause = e.cause)
    (h : Counted lent limit x) : Counted lent limit (Exec.mapError f x) := by
  rw [Counted] at h ⊢
  intro s hstore hle
  have hrun := h s hstore hle
  rw [Exec.mapError]
  cases hs : x s with
  | ok a t =>
    rw [hs] at hrun
    exact hrun
  | error stop t =>
    rw [hs] at hrun
    cases stop with
    | exhausted => exact hrun
    | failed e =>
      have hsame : (Stop.failed (f e)).IsFuel limit ↔ (Stop.failed e).IsFuel limit := by
        simp only [Stop.IsFuel, hf]
      simpa only [Tallied, hsame] using hrun

theorem within {enter : State σ → State σ} {leave : State σ → State σ → State σ}
    (henter : ∀ s : State σ, s.Alike (enter s)) (hleave : ∀ s t : State σ, t.Alike (leave s t))
    (h : Counted lent limit x) : Counted lent limit (Exec.within enter leave x) := by
  rw [Counted] at h ⊢
  intro s hstore hle
  have hrun := h (enter s) ((henter s).store ▸ hstore) ((henter s).executed ▸ hle)
  rw [Exec.within]
  cases hs : x (enter s) with
  | ok a t | error stop t =>
    rw [hs] at hrun
    have halike := hleave s t
    simpa only [Exec.left, Tallied, halike.store, halike.executed] using hrun

theorem withinDepth (h : Counted lent limit x) : Counted lent limit (Machine.withinDepth m x) := by
  rw [Counted] at h ⊢
  intro s hstore hle
  rw [Machine.withinDepth]
  split
  · refine ⟨hstore, .inl ⟨hle, fun hfuel => ?_⟩⟩
    cases hfuel
  · exact h s hstore hle

/-- A host function that exceeds no limit does not stop the counting. -/
theorem callHost {f : HostFunction σ}
    (hf : ∀ cause, f.MayFailWith cause → cause.category ≠ .limit) (args : List Value) :
    Counted lent limit (Machine.callHost f args) := by
  rw [Counted]
  intro s hstore hle
  rw [Machine.callHost]
  cases hcall : f.call args s.host with
  | mk result host =>
    cases result with
    | ok value => exact ⟨hstore, hle⟩
    | error e =>
      refine ⟨hstore, .inl ⟨hle, fun hfuel => ?_⟩⟩
      have hcause : e.cause = .limitExceeded (.fuel limit) := hfuel
      rw [HostFunction.call] at hcall
      split at hcall
      · exact hf e.cause ⟨args, s.host, e, host, hcall, rfl⟩ (by rw [hcause]; rfl)
      · cases hcall
        cases hcause

theorem emitLine (line : String) : Counted lent limit (Machine.emitLine m line) := by
  rw [Counted]
  intro s hstore hle
  rw [Machine.emitLine_eq]
  split <;> exact ⟨hstore, hle⟩

/-- The statement behind the limit is counted and stops the execution. -/
theorem countStatement (hfuel : m.config.fuel = some limit) :
    Counted lent limit (Machine.countStatement m) := by
  rw [Counted]
  intro s hstore hle
  rcases Nat.lt_or_eq_of_le hle with hlt | heq
  · have hbelow : ∀ limit', m.config.fuel = some limit' → s.executed < limit' := by
      intro limit' hfuel'
      rw [hfuel] at hfuel'
      exact Option.some.inj hfuel' ▸ hlt
    rw [Machine.countStatement_of_lt hbelow]
    exact ⟨hstore, hlt⟩
  · rw [Machine.countStatement_of_le hfuel (Nat.le_of_eq heq.symm)]
    exact ⟨hstore, .inr ⟨congrArg (· + 1) heq, rfl⟩⟩

/-- To count statements is a congruence. -/
theorem congruence (hfuel : m.config.fuel = some limit)
    (hhosts : ∀ f ∈ m.hosts.functions, ∀ cause, f.MayFailWith cause → cause.category ≠ .limit) :
    Machine.Congruence m m.config (· ∈ m.hosts.functions)
      (fun {_} x _ => Counted (· ∈ m.hosts.functions) limit x) where
  registered := id
  elementary := elementary
  bind := bind
  read := read
  mapError := mapError
  inScope h := within (fun _ => ⟨rfl, rfl, rfl, rfl⟩) (fun _ _ => ⟨rfl, rfl, rfl, rfl⟩) h
  inModule h := within (fun _ => ⟨rfl, rfl, rfl, rfl⟩) (fun _ _ => ⟨rfl, rfl, rfl, rfl⟩) h
  inCall h := within (fun _ => ⟨rfl, rfl, rfl, rfl⟩) (fun _ _ => ⟨rfl, rfl, rfl, rfl⟩) h
  withinDepth := withinDepth
  callHost hf := callHost (hhosts _ hf)
  emitLine := emitLine
  countStatement := countStatement hfuel

end Counted

/-! ## Runs -/

namespace Setup

variable (m : Setup σ) {c : Config} {n n' : Nat} {s : State σ}

/-- The run from the state ends in this way: it is given steps enough. -/
def Ends (s : State σ) (r : EStateM.Result Stop (State σ) Unit) : Prop :=
  (∀ t, r ≠ .error .exhausted t) ∧ ∃ steps, m.runFrom steps s = r

/-- The setup without a limit of statements. -/
abbrev unlimited : Setup σ :=
  m.withConfig { m.config with fuel := none }

variable {m}

theorem Ends.of_ok {n : Nat} {s t : State σ} (h : m.runFrom n s = .ok () t) :
    m.Ends s (.ok () t) := by
  refine ⟨fun u heq => ?_, n, h⟩
  cases heq

theorem Ends.of_failed {n : Nat} {s t : State σ} {e : Error}
    (h : m.runFrom n s = .error (.failed e) t) : m.Ends s (.error (.failed e) t) := by
  refine ⟨fun u heq => ?_, n, h⟩
  cases heq

/-- A run is cut short by tighter limits only. -/
theorem runFrom_of_tighter (htight : m.config.Tighter c) (n : Nat) (s : State σ) :
    m.runFrom n s = (m.withConfig c).runFrom n s ∨
      ∃ stop t, m.runFrom n s = .error stop t ∧ m.config.Stops c stop := by
  have hcongr := Cuts.congruence (σ := σ) htight (fun _ => id) fun _ _ => Config.Stops.congr
  have hcuts := hcongr.run (.refl n)
  rw [Cuts] at hcuts
  rcases (hcuts s).2 with heq | ⟨stop, t, hstop, hstops, -⟩
  · exact .inl heq
  · exact .inr ⟨stop, t, hstop, hstops⟩

/-- Given fewer steps or tighter limits, a run is cut short. -/
theorem cuts_topLevel (htight : m.config.Tighter c) (hle : n ≤ n') :
    Cuts (m.config.CutsShort c) (Machine.topLevel m (Machine.execute m n) n)
      (Machine.topLevel (m.withConfig c) (Machine.execute (m.withConfig c) n') n') := by
  have hcongr := Cuts.congruence (K := m.config.CutsShort c) htight (fun _ => .inr)
    fun e e' hcause => by
      rintro (heq | hstops)
      · cases heq
      · exact .inr (hstops.congr hcause)
  have hn := Cuts.moreSteps (σ := σ) (K := m.config.CutsShort c) (.inl rfl) hle
  exact hcongr.run hn

/-- More steps change a run only if it was exhausted. -/
theorem runFrom_of_le (hle : n ≤ n') (hs : ∀ t, m.runFrom n s ≠ .error .exhausted t) :
    m.runFrom n' s = m.runFrom n s := by
  have hcuts := cuts_topLevel (.refl m.config) hle
  rw [Cuts] at hcuts
  rcases (hcuts s).2 with heq | ⟨stop, t, hstop, rfl | hstops, -⟩
  · exact heq.symm
  · exact absurd hstop (hs t)
  · exact absurd hstops Config.Stops.irrefl

/-- Given fewer steps or tighter limits, a run prints the first lines only. -/
theorem before_runFrom (htight : m.config.Tighter c) (hle : n ≤ n') (s : State σ) :
    (endState (m.runFrom n s)).Before (endState ((m.withConfig c).runFrom n' s)) :=
  (cuts_topLevel htight hle).before s

end Setup

/-- A statement that begins when so many have been counted is not executed. -/
theorem Machine.execute_of_limit_le {m : Setup σ} {limit : Nat}
    (hfuel : m.config.fuel = some limit) (n : Nat) {s : State σ} (hle : limit ≤ s.executed) :
    execute m (n + 1) s =
      .error (.failed ((Error.of (.limitExceeded (.fuel limit))).atOffset s.position))
        { s with executed := s.executed + 1 } := by
  rw [execute_succ, statement, bind_of_ok (Exec.position_eq s), Exec.mapError,
    bind_of_error (countStatement_of_le hfuel hle)]

/-- The run fails because so many statements have been counted. -/
def FailsOfFuel (limit : Nat) (r : EStateM.Result Stop (State σ) Unit) : Prop :=
  ∃ stop t, r = .error stop t ∧ stop.IsFuel limit

/-- Only the statement behind the limit stops the run. -/
theorem Tallied.executed_iff {lent : HostFunction σ → Prop} {limit : Nat}
    {r : EStateM.Result Stop (State σ) Unit} (h : Tallied lent limit r) :
    (endState r).executed ≤ limit + 1 ∧
      (FailsOfFuel limit r ↔ (endState r).executed = limit + 1) := by
  cases r with
  | ok a t =>
    have hle : t.executed ≤ limit := h.2
    refine ⟨Nat.le_succ_of_le hle, ?_, fun heq => ?_⟩
    · rintro ⟨stop, u, heq, -⟩
      cases heq
    · exact absurd hle (Nat.not_le.2 (Nat.lt_of_lt_of_eq (Nat.lt_succ_self limit) heq.symm))
  | error stop t =>
    have hiff : FailsOfFuel limit (.error stop t : EStateM.Result Stop (State σ) Unit) ↔
        stop.IsFuel limit := by
      refine ⟨?_, fun hfuel => ⟨stop, t, rfl, hfuel⟩⟩
      rintro ⟨stop', u, heq, hfuel⟩
      cases heq
      exact hfuel
    rw [hiff]
    have htally := h.2
    show t.executed ≤ limit + 1 ∧ (stop.IsFuel limit ↔ t.executed = limit + 1)
    rcases htally with ⟨hle, hnot⟩ | ⟨heq, hfuel⟩
    · exact ⟨by omega, fun hfuel => absurd hfuel hnot, by omega⟩
    · exact ⟨by omega, fun _ => heq, fun _ => hfuel⟩

/-- Without a limit the run begins more statements exactly if it fails of the limit with it. -/
theorem Setup.failsOfFuel_iff {m : Setup σ} {limit : Nat} (hfuel : m.config.fuel = some limit)
    {s : State σ} (hs : s.executed ≤ limit)
    (hcount : FailsOfFuel limit (m.runFrom m.steps s) ↔
      limit < (endState (m.runFrom m.steps s)).executed) :
    FailsOfFuel limit (m.runFrom m.steps s) ↔
      ∃ n, limit < (endState (m.unlimited.runFrom n s)).executed := by
  have hwide : m.config.Tighter { m.config with fuel := none } := ⟨Nat.le_refl _, nofun, rfl⟩
  have hends : ∀ t, m.runFrom m.steps s ≠ .error .exhausted t :=
    m.runFrom_ne_exhausted hfuel hs
  constructor
  · intro hfails
    -- The statement that is too many begins without the limit as well.
    have hbefore := before_runFrom hwide (Nat.le_refl m.steps) s
    exact ⟨m.steps, Nat.lt_of_lt_of_le (hcount.1 hfails) hbefore.executed⟩
  · rintro ⟨n, hpast⟩
    rcases runFrom_of_tighter hwide m.steps s with heq | ⟨stop, t, hstop, hstops⟩
    · -- The run has ended without the limit as well, and counts no further statement.
      rw [hcount]
      rw [heq] at hends ⊢
      rcases Nat.le_total n m.steps with hle | hle
      · have hbefore := before_runFrom (.refl m.unlimited.config) hle s
        exact Nat.lt_of_lt_of_le hpast hbefore.executed
      · rwa [runFrom_of_le hle hends] at hpast
    · cases hstops with
      | callDepth _ hwider => exact absurd hwider (Nat.lt_irrefl _)
      | fuel hcause hfuel' _ =>
        rw [hfuel] at hfuel'
        exact ⟨_, t, hstop, Option.some.inj hfuel' ▸ hcause⟩

/-- The run of a program without host functions that exceed limits counts its statements. -/
theorem Setup.tallied_runFrom {m : Setup σ} {limit : Nat} (hfuel : m.config.fuel = some limit)
    (hhosts : ∀ f ∈ m.hosts.functions, ∀ cause, f.MayFailWith cause → cause.category ≠ .limit)
    (n : Nat) (output echoed : Array String) (host : σ) :
    Tallied (· ∈ m.hosts.functions) limit (m.runFrom n (.initial output echoed host)) := by
  have hcongr := Counted.congruence hfuel hhosts
  have hcounted := hcongr.run (.refl n)
  rw [Counted] at hcounted
  exact hcounted _ (fun cell b hb => by simp at hb) (Nat.zero_le _)

/-- Limits stop runs and do nothing else. A run that does not fail of a limit ends in the same way
under wider limits, and goes on forever if it did before; in any case the lines that it prints are
the first lines under wider limits. Where so many statements may be executed, no more are: the
statement behind them begins and stops the run, and this is how the run ends exactly if without the
limit more statements would begin. -/
theorem limits_only_stop (m : Setup σ) {c : Config} (htight : m.config.Tighter c)
    (hhosts : ∀ f ∈ m.hosts.functions, ∀ cause, f.MayFailWith cause → cause.category ≠ .limit)
    (output echoed : Array String) (host : σ) :
    let s : State σ := .initial output echoed host
    (∀ r, m.Ends s r → (∀ e t, r = .error (.failed e) t → e.category ≠ .limit) →
      (m.withConfig c).Ends s r) ∧
    ((∀ r, ¬ m.Ends s r) → ∀ r, ¬ (m.withConfig c).Ends s r) ∧
    (∀ n n', n ≤ n' →
      (endState (m.runFrom n s)).Before (endState ((m.withConfig c).runFrom n' s))) ∧
    (∀ r r', m.Ends s r → (m.withConfig c).Ends s r' → (endState r).Before (endState r')) ∧
    ∀ limit, m.config.fuel = some limit →
      (∃ r, m.Ends s r ∧ (endState r).executed ≤ limit + 1 ∧
        (FailsOfFuel limit r ↔ (endState r).executed = limit + 1) ∧
        (FailsOfFuel limit r ↔ ∃ n, limit < (endState (m.unlimited.runFrom n s)).executed)) ∧
      ∀ n t, limit ≤ t.executed →
        Machine.execute m (n + 1) t =
          .error (.failed ((Error.of (.limitExceeded (.fuel limit))).atOffset t.position))
            { t with executed := t.executed + 1 } := by
  intro s
  refine ⟨?_, ?_, fun n n' hle => Setup.before_runFrom htight hle s, ?_, fun limit hfuel =>
    ⟨?_, fun n t => Machine.execute_of_limit_le hfuel n⟩⟩
  · rintro r ⟨hends, n, rfl⟩ hlimit
    -- With the same steps the other run is this one, since no limit has stopped this one.
    refine ⟨hends, n, ?_⟩
    rcases Setup.runFrom_of_tighter htight n s with heq | ⟨stop, t, hstop, hstops⟩
    · exact heq.symm
    · obtain ⟨e, rfl, he⟩ := hstops.category_eq
      exact absurd he (hlimit e t hstop)
  · rintro hdiverges r ⟨hends, n, rfl⟩
    -- With as many steps the tighter run would have ended too, by itself or of a limit.
    rcases Setup.runFrom_of_tighter htight n s with heq | ⟨stop, t, hstop, hstops⟩
    · exact hdiverges _ ⟨hends, n, heq⟩
    · obtain ⟨e, rfl, -⟩ := hstops.category_eq
      exact hdiverges _ (.of_failed hstop)
  · rintro r r' ⟨-, n, rfl⟩ ⟨hends', n', rfl⟩
    -- The run under the wider limits is given at least as many steps as the other one.
    have hmore := Setup.runFrom_of_le (Nat.le_max_right n n') hends'
    rw [← hmore]
    exact Setup.before_runFrom htight (Nat.le_max_left n n') s
  · have hends : ∀ t, m.runFrom m.steps s ≠ .error .exhausted t :=
      m.runFrom_ne_exhausted hfuel (Nat.zero_le limit)
    have htally : Tallied (· ∈ m.hosts.functions) limit (m.runFrom m.steps s) :=
      Setup.tallied_runFrom hfuel hhosts m.steps output echoed host
    obtain ⟨hle, hcount⟩ := Tallied.executed_iff htally
    refine ⟨m.runFrom m.steps s, ⟨hends, m.steps, rfl⟩, hle, hcount, ?_⟩
    exact Setup.failsOfFuel_iff hfuel (Nat.zero_le limit) (hcount.trans (by omega))

/-- A program that prints twice. -/
def Builder.twice : Builder :=
  Builder.empty.extend [.print (.literal (.int 1)), .print (.literal (.int 2))]

/-- One statement is too few for the program and stops it behind the first line; two suffice, and
then it makes no difference that there is a limit. -/
theorem limits_only_stop_twice :
    let program : Program := { image := Builder.twice.build, codeEnd := 18, names := {} }
    let setup (fuel : Option Nat) : Setup Unit := { program, hosts := {}, config := { fuel } }
    let s : State Unit := .initial #[] #[] ()
    (∃ r, (setup (some 1)).Ends s r ∧ FailsOfFuel 1 r ∧ (endState r).executed = 2 ∧
      (endState r).Before (endState ((setup none).runFrom 9 s))) ∧
    ∃ r, (setup (some 2)).Ends s r ∧ (setup none).Ends s r := by
  intro program setup s
  have hwide : ∀ limit, (setup (some limit)).config.Tighter (setup none).config := fun limit =>
    ⟨Nat.le_refl _, nofun, rfl⟩
  have hhosts : ∀ f ∈ ({} : Registry Unit).functions, ∀ cause,
      f.MayFailWith cause → cause.category ≠ .limit := nofun
  have hnone : (endState ((setup none).runFrom 9 s)).executed = 2 := by rfl
  obtain ⟨u, hu⟩ : ∃ u, (setup none).runFrom 9 s = .ok () u := ⟨_, rfl⟩
  obtain ⟨v, hv⟩ : ∃ v, (setup (some 2)).runFrom 9 s = .ok () v := ⟨_, rfl⟩
  constructor
  · obtain ⟨-, -, -, hbefore, hfuel⟩ :=
      limits_only_stop (setup (some 1)) (hwide 1) hhosts #[] #[] ()
    obtain ⟨⟨r, hends, -, hcount, htally⟩, -⟩ := hfuel 1 rfl
    have hfails : FailsOfFuel 1 r := htally.2 ⟨9, by rw [hnone]; decide⟩
    have hfinished : (setup none).Ends s ((setup none).runFrom 9 s) := hu ▸ .of_ok hu
    exact ⟨r, hends, hfails, hcount.1 hfails, hbefore r _ hends hfinished⟩
  · obtain ⟨hsame, -⟩ := limits_only_stop (setup (some 2)) (hwide 2) hhosts #[] #[] ()
    have hends : (setup (some 2)).Ends s (.ok () v) := .of_ok hv
    exact ⟨_, hends, hsame _ hends fun e t heq => by cases heq⟩

end Bytewalk
