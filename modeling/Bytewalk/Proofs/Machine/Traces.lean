import Mathlib
import Bytewalk.Proofs.Machine.Accounts
import Bytewalk.Proofs.Machine.Limits

/-!
# Traces of errors

What the trace of an error says about the moment at which the error was raised. The trace is put
together while the error leaves statements and functions one after the other, and it says what the
account of what was open says: the offset is that of the innermost statement, and the frames are the
active functions, innermost first. `Tracks` compares an execution with one that keeps account; it is
a correspondence up to calls and statements, which are compared here.

The main result is `trace_exact`.
-/

namespace Bytewalk

variable {σ α β : Type}

/-! ## What an error gathers -/

/-- What an error records when it leaves. -/
def Entry.leave (names : NameTable) (e : Error) : Entry → Error
  | .statement start | .turn start => e.atOffset start
  | .call name => e.inFrame (name.render names)
  | .host _ => e

namespace Account

/-- The error of a cause when it has left all that was open. -/
def errorOf (names : NameTable) (account : Account) (cause : Cause) : Error :=
  account.foldl (Entry.leave names) (.of cause)

variable (names : NameTable) (account : Account) (entry : Entry) (cause : Cause)

/-- The outermost that was open is left last. -/
theorem errorOf_concat :
    errorOf names (account ++ [entry]) cause = entry.leave names (account.errorOf names cause) :=
  List.foldl_append

@[simp]
theorem cause_errorOf : (account.errorOf names cause).cause = cause := by
  induction account using List.reverseRecOn with
  | nil => rfl
  | append_singleton account entry ih =>
    rw [errorOf_concat]
    cases entry <;> exact ih

/-- The first offset that is recorded is that of the innermost statement. -/
theorem offset_errorOf : (account.errorOf names cause).offset = account.start? := by
  induction account using List.reverseRecOn with
  | nil => rfl
  | append_singleton account entry ih =>
    rw [errorOf_concat, start?, List.findSome?_append, ← start?, ← ih]
    cases entry with
    | statement start | turn start =>
      rw [Entry.leave, Error.offset_atOffset]
      cases (errorOf names account cause).offset <;> rfl
    | call name => simp [Entry.leave, Entry.start?]
    | host name => simp [Entry.leave, Entry.start?]

/-- The frames are recorded from the innermost function outwards. -/
theorem frames_errorOf :
    (account.errorOf names cause).frames = account.calls.map (·.render names) := by
  induction account using List.reverseRecOn with
  | nil => rfl
  | append_singleton account entry ih =>
    rw [errorOf_concat, calls_append, List.map_append, ← ih]
    cases entry with
    | statement start | turn start => simp [Entry.leave, calls, Entry.name?]
    | call name => simp [Entry.leave, calls, Entry.name?]
    | host name => simp [Entry.leave, calls, Entry.name?]

end Account

/-- An offset that is known is kept. -/
theorem Error.atOffset_of_offset {e : Error} {start : Nat} (h : e.offset = some start) (n : Nat) :
    e.atOffset n = e := by
  obtain ⟨cause, _ | ⟨offset, frames⟩⟩ := e
  · cases h
  · obtain rfl : offset = some start := h
    rfl

/-- The host functions return errors without a trace. -/
def Registry.ReturnsBareErrors (hosts : Registry σ) : Prop :=
  ∀ f ∈ hosts.functions, ∀ args host e host',
    f.action args host = (.error e, host') → e.trace = none

/-! ## Comparing executions -/

/-- If too many calls are open, they are as many as may be, unless a host function says so. -/
def Account.IsFull (account : Account) (c : Config) (cause : Cause) : Prop :=
  ∀ limit, cause = .limitExceeded (.callDepth limit) →
    (∃ name, account.head? = some (.host name)) ∨
      limit = c.maxCallDepth ∧ account.calls.length = c.maxCallDepth

/-- An execution that keeps account ends as the other one does, unless it is halted. Where it is not
done, its account goes on with what is open. -/
inductive Accords (m : Setup σ) (halts : Prop) (depth : Nat) (account : Account) :
    EStateM.Result Stop (State σ) α → EStateM.Result Stop (State (Accounted σ)) α → Prop
  | ok {a : α} {t : State σ} (hdepth : t.depth = depth)
      (hstore : t.store.Holds (· ∈ m.hosts.functions)) :
      Accords m halts depth account (.ok a t) (.ok a (t.onAccount account))
  | failed {cause : Cause} {opened : Account} {t : State σ}
      (hcalls : (opened ++ account).calls.length ≤ m.config.maxCallDepth)
      (hfull : (opened ++ account).IsFull m.config cause) :
      Accords m halts depth account
        (.error (.failed (opened.errorOf m.program.names cause)) t)
        (.error (.failed (.of cause)) (t.onAccount (opened ++ account)))
  | exhausted {opened : Account} {t : State σ}
      (hcalls : (opened ++ account).calls.length ≤ m.config.maxCallDepth) :
      Accords m halts depth account (.error .exhausted t)
        (.error .exhausted (t.onAccount (opened ++ account)))
  | halted {r : EStateM.Result Stop (State σ) α} {t : State (Accounted σ)} (hhalts : halts)
      (hcalls : t.host.account.calls.length ≤ m.config.maxCallDepth) :
      Accords m halts depth account r (.error .exhausted t)

/-- From every state the execution that keeps account ends as the other one does, if the account
lists as many calls as are open. -/
@[irreducible]
def Tracks (m : Setup σ) (halt : State (Accounted σ) → Bool) (x : Exec σ α)
    (x' : Exec (Accounted σ) α) : Prop :=
  ∀ (s : State σ) (account : Account), s.store.Holds (· ∈ m.hosts.functions) →
    account.calls.length = s.depth → s.depth ≤ m.config.maxCallDepth →
    Accords m (∃ t, halt t = true) s.depth account (x s) (x' (s.onAccount account))

namespace Accords

variable {m : Setup σ} {halts : Prop} {depth : Nat} {account : Account} {s : State σ}

/-- An error that is raised here has left nothing yet. -/
theorem raised {cause : Cause} (hcalls : account.calls.length ≤ m.config.maxCallDepth)
    (hfull : account.IsFull m.config cause) :
    Accords m halts depth account (.error (.failed (.of cause)) s : EStateM.Result Stop _ α)
      (.error (.failed (.of cause)) (s.onAccount account)) :=
  @failed _ _ m halts depth account cause [] s hcalls hfull

theorem bind {x : Exec σ α} {x' : Exec (Accounted σ) α} {k : α → Exec σ β}
    {k' : α → Exec (Accounted σ) β} {s' : State (Accounted σ)}
    (h : Accords m halts depth account (x s) (x' s'))
    (hk : ∀ a t, t.depth = depth → t.store.Holds (· ∈ m.hosts.functions) →
      Accords m halts depth account (k a t) (k' a (t.onAccount account))) :
    Accords m halts depth account ((x >>= k) s) ((x' >>= k') s') := by
  generalize hr : x s = r at h
  generalize hr' : x' s' = r' at h
  cases h with
  | ok hdepth hstore =>
    rw [bind_of_ok hr, bind_of_ok hr']
    exact hk _ _ hdepth hstore
  | failed hcalls hfull =>
    rw [bind_of_error hr, bind_of_error hr']
    exact .failed hcalls hfull
  | exhausted hcalls =>
    rw [bind_of_error hr, bind_of_error hr']
    exact .exhausted hcalls
  | halted hhalts hcalls =>
    rw [bind_of_error hr']
    exact .halted hhalts hcalls

/-- What leaves an error when it is left is what the account forgets. -/
theorem opened {entry : Entry} {x : Exec σ α} {x' : Exec (Accounted σ) α}
    (h : Accords m halts depth (entry :: account) (x s) (x' (s.onAccount (entry :: account)))) :
    Accords m halts depth account (Exec.mapError (entry.leave m.program.names ·) x s)
      (Exec.opened entry x' (s.onAccount account)) := by
  have henter : (s.onAccount account).withAccount (entry :: (s.onAccount account).host.account) =
      s.onAccount (entry :: account) := rfl
  rw [Exec.mapError, Exec.opened, henter]
  generalize x s = r at h
  generalize x' (s.onAccount (entry :: account)) = r' at h
  cases h with
  | ok hdepth hstore => exact .ok hdepth hstore
  | @failed cause opened t hcalls hfull =>
    have hsplit : opened ++ entry :: account = (opened ++ [entry]) ++ account := by simp
    simp only [hsplit] at hcalls hfull ⊢
    rw [← Account.errorOf_concat]
    exact .failed hcalls hfull
  | @exhausted opened t hcalls =>
    have hsplit : opened ++ entry :: account = (opened ++ [entry]) ++ account := by simp
    simp only [hsplit] at hcalls ⊢
    exact .exhausted hcalls
  | halted hhalts hcalls => exact .halted hhalts hcalls

/-- On the way out of another context the account stays as it is. -/
theorem left (s : State σ) {inner : Nat} {r : EStateM.Result Stop (State σ) α}
    {r' : EStateM.Result Stop (State (Accounted σ)) α} (h : Accords m halts inner account r r')
    (leave : State σ → State σ) (leave' : State (Accounted σ) → State (Accounted σ))
    (hdepth : ∀ t, t.depth = inner → (leave t).depth = depth)
    (hstore : ∀ t, (leave t).store = t.store)
    (hsame : ∀ t account', leave' (t.onAccount account') = (leave t).onAccount account')
    (hhost : ∀ t, (leave' t).host = t.host) :
    Accords m halts depth account (Exec.left (fun _ => leave) s r)
      (Exec.left (fun _ => leave') (s.onAccount account) r') := by
  cases h with
  | ok hinner hholds =>
    rw [Exec.left, Exec.left, hsame]
    exact .ok (hdepth _ hinner) (by rwa [hstore])
  | failed hcalls hfull =>
    rw [Exec.left, Exec.left, hsame]
    exact .failed hcalls hfull
  | exhausted hcalls =>
    rw [Exec.left, Exec.left, hsame]
    exact .exhausted hcalls
  | halted hhalts hcalls =>
    refine .halted hhalts ?_
    rw [hhost]
    exact hcalls

end Accords

namespace Tracks

variable {m : Setup σ} {halt : State (Accounted σ) → Bool}

theorem bind {x : Exec σ α} {x' : Exec (Accounted σ) α} {k : α → Exec σ β}
    {k' : α → Exec (Accounted σ) β} (hx : Tracks m halt x x')
    (hk : ∀ a, Tracks m halt (k a) (k' a)) : Tracks m halt (x >>= k) (x' >>= k') := by
  rw [Tracks] at hx ⊢
  intro s account hstore hcalls hdepth
  refine (hx s account hstore hcalls hdepth).bind fun a t ht hstore' => ?_
  have hrest := hk a
  rw [Tracks] at hrest
  rw [← ht] at hcalls hdepth ⊢
  exact hrest t account hstore' hcalls hdepth

/-- What is bound in one store is bound in the other one. -/
theorem bindIn (names : NameTable) (scope : Scope) (name : Symbol) {binding : Binding σ}
    (hlent : Machine.Binds (· ∈ m.hosts.functions) binding) :
    Tracks m halt (Exec.bindIn names scope name binding)
      (Exec.bindIn names scope name (binding.mapHost HostFunction.accounted)) := by
  rw [Tracks]
  intro s account hstore hcalls hdepth
  by_cases hbound : s.store.bindsLocally scope name
  · have hbound' : (s.onAccount account).store.bindsLocally scope name := hbound
    rw [Exec.bindIn, Exec.bindIn, if_pos hbound, if_pos hbound']
    exact .raised (hcalls ▸ hdepth) (by rintro _ ⟨⟩)
  · have hbound' : ¬ (s.onAccount account).store.bindsLocally scope name := hbound
    have hquiet : State.Quiet (· ∈ m.hosts.functions) s
        (endState (Exec.bindIn names scope name binding s)) :=
      ((@Machine.Elementary.bindIn σ m _ names scope name binding hlent).isQuiet s).1
    rw [Exec.bindIn, if_neg hbound] at hquiet
    have hmapped : ((s.onAccount account).store.bind scope name
        (binding.mapHost HostFunction.accounted)).2 =
          (s.store.bind scope name binding).2.map (Binding.mapHost HostFunction.accounted) :=
      Store.bind_map ..
    rw [Exec.bindIn, Exec.bindIn, if_neg hbound, if_neg hbound', hmapped]
    exact .ok rfl (hquiet.holds hstore)

/-- Twins end in the same way, and what they fail of is raised there and then. -/
theorem twins {x : Exec σ α} {x' : Exec (Accounted σ) α}
    (h : Machine.Twins m HostFunction.accounted (Machine.Binds (· ∈ m.hosts.functions)) x x') :
    Tracks m halt x x' := by
  rw [Tracks]
  intro s account hstore hcalls hdepth
  have hbound : account.calls.length ≤ m.config.maxCallDepth := hcalls ▸ hdepth
  have hfull : ∀ {cause : Cause}, cause.category ≠ .limit → account.IsFull m.config cause := by
    rintro cause hcause limit rfl
    exact absurd rfl hcause
  cases h with
  | pure | seek | position | scope | qualify => exact .ok rfl hstore
  | exhaust => exact @Accords.exhausted _ _ m _ _ account [] s hbound
  | fail hplain => exact .raised hbound (hfull hplain.noLimit)
  | @lift _ result hover =>
    cases result with
    | ok a => exact .ok rfl hstore
    | error e =>
      obtain ⟨cause, rfl, hcategory⟩ := hover e rfl
      exact .raised hbound (hfull (by rw [hcategory]; decide))
  | @decode _ decoder hreads =>
    cases hread : decoder s.position with
    | ok a p =>
      rw [Exec.decode_of_ok s hread, Exec.decode_of_ok (s.onAccount account) hread]
      exact .ok rfl hstore
    | error e p =>
      rw [Exec.decode_of_error s hread, Exec.decode_of_error (s.onAccount account) hread]
      cases hreads.failsOverForm _ _ _ hread with
      | malformed | unknown => exact .raised hbound (hfull (by rintro ⟨⟩))
  | resolve name =>
    cases hfound : s.store.lookup? s.scope name with
    | some cell =>
      rw [Exec.resolve_of_some s hfound, Exec.resolve_of_some (s.onAccount account) hfound]
      exact .ok rfl hstore
    | none =>
      rw [Exec.resolve_of_none s hfound, Exec.resolve_of_none (s.onAccount account) hfound]
      exact .raised hbound (hfull (by rintro ⟨⟩))
  | openIn parent => exact .ok rfl hstore
  | bindIn scope name hlent =>
    have hbind := @bindIn σ m halt m.program.names scope name _ hlent
    rw [Tracks] at hbind
    exact hbind s account hstore hcalls hdepth
  | write cell value =>
    have hquiet := (@Machine.Elementary.write σ m (· ∈ m.hosts.functions) cell value).isQuiet s
    have hmapped : (s.onAccount account).store.write cell (.variable false value) =
        (s.store.write cell (.variable false value)).map
          (Binding.mapHost HostFunction.accounted) :=
      Store.write_map (Binding.mapHost HostFunction.accounted) s.store cell (.variable false value)
    have hrun : (modify fun s : State (Accounted σ) =>
        { s with store := s.store.write cell (.variable false value) } :
          Exec (Accounted σ) PUnit) (s.onAccount account) =
        .ok ⟨⟩ { s.onAccount account with
          store := (s.onAccount account).store.write cell (.variable false value) } := rfl
    rw [hrun, hmapped]
    exact .ok rfl (hquiet.1.holds hstore)

/-- What a cell holds beside an account is what it holds without. -/
theorem read {cell : CellId} {k : Binding σ → Exec σ α}
    {k' : Binding (Accounted σ) → Exec (Accounted σ) α}
    (hk : ∀ b, Machine.Binds (· ∈ m.hosts.functions) b →
      Tracks m halt (k b) (k' (b.mapHost HostFunction.accounted))) :
    Tracks m halt (Exec.read cell >>= k) (Exec.read cell >>= k') := by
  rw [Tracks]
  intro s account hstore hcalls hdepth
  have hread : (s.onAccount account).store.read? cell =
      (s.store.read? cell).map (Binding.mapHost HostFunction.accounted) :=
    Store.read?_map ..
  rw [bind_of_ok (Exec.read_eq s cell), bind_of_ok (Exec.read_eq (s.onAccount account) cell), hread]
  cases hcell : s.store.read? cell with
  | none =>
    -- A cell that is not there counts as a variable without a value.
    have hrest := hk default (by rintro _ _ ⟨⟩)
    rw [Tracks] at hrest
    exact hrest s account hstore hcalls hdepth
  | some b =>
    have hrest := hk b (hstore cell b hcell)
    rw [Tracks] at hrest
    exact hrest s account hstore hcalls hdepth

theorem inScope {scope : Scope} {x : Exec σ α} {x' : Exec (Accounted σ) α}
    (hx : Tracks m halt x x') :
    Tracks m halt (Exec.inScope scope x) (Exec.inScope scope x') := by
  rw [Tracks] at hx ⊢
  intro s account hstore hcalls hdepth
  exact (hx { s with scope } account hstore hcalls hdepth).left s
    (fun t => { t with scope := s.scope }) (fun t => { t with scope := s.scope }) (fun _ => id)
    (fun _ => rfl) (fun _ _ => rfl) fun _ => rfl

theorem inModule {name : Symbol} {x : Exec σ α} {x' : Exec (Accounted σ) α}
    (hx : Tracks m halt x x') :
    Tracks m halt (Exec.inModule name x) (Exec.inModule name x') := by
  rw [Tracks] at hx ⊢
  intro s account hstore hcalls hdepth
  exact (hx { s with modules := s.modules ++ [name] } account hstore hcalls hdepth).left s
    (fun t => { t with modules := s.modules }) (fun t => { t with modules := s.modules })
    (fun _ => id) (fun _ => rfl) (fun _ _ => rfl) fun _ => rfl

/-- A host function that fails is still open. -/
theorem callHost (hbare : m.hosts.ReturnsBareErrors)
    {f : HostFunction σ} (hf : f ∈ m.hosts.functions) (args : List Value) :
    Tracks m halt (Machine.callHost f args) (Machine.callHost f.accounted args) := by
  rw [Tracks]
  intro s account hstore hcalls hdepth
  have hbound : account.calls.length ≤ m.config.maxCallDepth := hcalls ▸ hdepth
  rw [Machine.callHost, Machine.callHost, HostFunction.call, HostFunction.call]
  by_cases haccepts : f.arity.accepts args.length
  · have haccepts' : f.accounted.arity.accepts args.length := haccepts
    rw [if_pos haccepts, if_pos haccepts']
    cases haction : f.action args s.host with
    | mk result host =>
      cases result with
      | ok value =>
        have haction' : f.accounted.action args (s.onAccount account).host =
            (.ok value, ⟨host, account⟩) := by
          simp [HostFunction.accounted, State.onAccount, haction]
        rw [haction']
        exact .ok rfl hstore
      | error e =>
        have haction' : f.accounted.action args (s.onAccount account).host =
            (.error e, ⟨host, .host f.name :: account⟩) := by
          simp [HostFunction.accounted, State.onAccount, haction]
        rw [haction']
        obtain ⟨cause, trace⟩ := e
        obtain rfl : trace = none := hbare f hf _ _ _ _ haction
        exact @Accords.failed _ _ m _ _ account cause [.host f.name] _ hbound
          fun _ _ => .inl ⟨f.name, rfl⟩
  · have haccepts' : ¬ f.accounted.arity.accepts args.length := haccepts
    rw [if_neg haccepts, if_neg haccepts']
    exact .raised hbound (by rintro _ ⟨⟩)

theorem emitLine (line : String) :
    Tracks m halt (Machine.emitLine m line) (Machine.emitLine m.accounted line) := by
  rw [Tracks]
  intro s account hstore hcalls hdepth
  rw [Machine.emitLine_eq, Machine.emitLine_eq]
  by_cases hecho : m.config.echo = true
  · rw [if_pos hecho, if_pos hecho]
    exact .ok rfl hstore
  · rw [if_neg hecho, if_neg hecho]
    exact .ok rfl hstore

theorem countStatement :
    Tracks m halt (Machine.countStatement m) (Machine.countStatement m.accounted) := by
  rw [Tracks]
  intro s account hstore hcalls hdepth
  rcases Machine.countStatement_cases m s with hlt | ⟨limit, hfuel, hle⟩
  · rw [Machine.countStatement_of_lt hlt,
      @Machine.countStatement_of_lt _ m.accounted (s.onAccount account) hlt]
    exact .ok rfl hstore
  · rw [Machine.countStatement_of_le hfuel hle,
      @Machine.countStatement_of_le _ m.accounted (s.onAccount account) limit hfuel hle]
    exact .raised (hcalls ▸ hdepth) (by rintro _ ⟨⟩)

variable (halt) in
/-- To keep account is a correspondence. -/
theorem correspondence (hbare : m.hosts.ReturnsBareErrors) :
    Machine.FullCorrespondence m m.hosts.accounted m.config HostFunction.accounted
      (Machine.Binds (· ∈ m.hosts.functions)) (fun {_} => Tracks m halt) where
  inert := .of_isInert
  registered hf := .host (List.mem_of_find?_eq_some hf)
  hosts name := by
    rw [Registry.get?, Registry.get?, Registry.accounted, List.find?_map]
    rfl
  twins := twins
  bind := bind
  read := read
  inScope := inScope
  inModule := inModule
  callHost hf := callHost hbare (hf _ _ rfl)
  emitLine := emitLine
  stray {_} flow := by
    rw [Tracks]
    intro s account hstore hcalls hdepth
    exact .raised (hcalls ▸ hdepth) (by rintro _ ⟨⟩)
  function _ := by rintro _ _ ⟨⟩

/-! ## Calls and statements -/

/-- What fails while a statement is open fails of this statement, unless it fails of another one
inside. -/
theorem atOffset {x : Exec σ α} {x' : Exec (Accounted σ) α} (hx : Tracks m halt x x') :
    Tracks m halt (Exec.position >>= fun start => Exec.mapError (·.atOffset start) x)
      (Exec.position >>= fun start => Exec.opened (.statement start) x') := by
  rw [Tracks] at hx ⊢
  intro s account hstore hcalls hdepth
  have hinside := hx s (.statement s.position :: account) hstore hcalls hdepth
  exact hinside.opened

section Parts

variable {execute : Exec σ Flow} {execute' : Exec (Accounted σ) Flow}
  (hx : Tracks m halt execute execute')
include hx

/-- The body of a function is executed with one more call open, which the account lists. -/
theorem accords_bodyValue (f : Function) (frame : Scope) {s : State σ} {account : Account}
    (hstore : s.store.Holds (· ∈ m.hosts.functions)) (hcalls : account.calls.length = s.depth)
    (hdepth : s.depth < m.config.maxCallDepth) :
    Accords m (∃ t, halt t = true) s.depth (.call f.name :: account)
      (Machine.bodyValue execute f frame s)
      (Machine.bodyValue execute' f frame (s.onAccount (.call f.name :: account))) := by
  have hcalls' : (Account.calls (.call f.name :: account)).length = s.depth + 1 := by
    rw [← hcalls]
    rfl
  rw [Tracks] at hx
  have hbody := hx { s with
    position := f.body
    scope := frame
    modules := f.name.parent
    depth := s.depth + 1 } (.call f.name :: account) hstore hcalls' hdepth
  have hcall : Accords m (∃ t, halt t = true) s.depth (.call f.name :: account)
      (Exec.inCall f.body frame f.name.parent execute s)
      (Exec.inCall f.body frame f.name.parent execute'
        (s.onAccount (.call f.name :: account))) :=
    hbody.left s
      (fun t => { t with
        position := s.position
        scope := s.scope
        modules := s.modules
        depth := s.depth })
      (fun t => { t with
        position := s.position
        scope := s.scope
        modules := s.modules
        depth := s.depth }) (fun _ _ => rfl) (fun _ => rfl) (fun _ _ => rfl) fun _ => rfl
  refine hcall.bind fun flow t ht hstore' => ?_
  cases flow with
  | normal | returnValue => exact .ok ht hstore'
  -- The signal is refused while the function is open.
  | breakLoop => exact .raised (hcalls' ▸ hdepth) (by rintro _ ⟨⟩)

theorem invoke (hbare : m.hosts.ReturnsBareErrors) (f : Function) (args : List Value) :
    Tracks m halt (Machine.invoke m execute f args)
      (Machine.invokeAccounted m.accounted execute' f args) := by
  rw [Machine.invoke_eq, Machine.invokeAccounted]
  by_cases hlength : args.length = f.params.length
  · rw [if_pos hlength, if_pos hlength, Tracks]
    intro s account hstore hcalls hdepth
    rw [Machine.withinDepth, Machine.withinDepth]
    by_cases hfull : m.config.maxCallDepth ≤ s.depth
    · have hfull' : m.accounted.config.maxCallDepth ≤ (s.onAccount account).depth := hfull
      rw [if_pos hfull, if_pos hfull']
      -- As many calls are open as may be, and the account lists all of them.
      refine .raised (hcalls ▸ hdepth) fun limit hlimit => .inr ⟨?_, ?_⟩
      · cases hlimit
        rfl
      · exact hcalls.trans (Nat.le_antisymm hdepth hfull)
    · have hfull' : ¬ m.accounted.config.maxCallDepth ≤ (s.onAccount account).depth := hfull
      rw [if_neg hfull, if_neg hfull']
      have hframe := (correspondence halt hbare).openFrame f args
      rw [Tracks] at hframe
      refine (hframe s account hstore hcalls hdepth).bind fun frame t ht hstore' => ?_
      rw [← ht] at hcalls hfull ⊢
      exact .opened (accords_bodyValue hx f frame hstore' hcalls (Nat.not_le.1 hfull))
  · rw [if_neg hlength, if_neg hlength]
    exact (correspondence halt hbare).fail ⟨by rintro ⟨⟩, by rintro _ ⟨⟩⟩

variable (hbare : m.hosts.ReturnsBareErrors) {evaluate : Exec σ Operand}
  {evaluate' : Exec (Accounted σ) Operand} (he : Tracks m halt evaluate evaluate')
include hbare he

theorem call :
    Tracks m halt (Machine.call m execute evaluate)
      (Machine.callWith m.accounted (Machine.invokeAccounted m.accounted execute') evaluate') := by
  rw [← Machine.callWith_invoke]
  exact (correspondence halt hbare).callWith he fun f args _ => invoke hx hbare f args

/-- A statement is open from its beginning on, and what it fails of leaves it. -/
theorem statement (turns : Nat) :
    Tracks m halt (Machine.statement m execute evaluate turns)
      (Machine.statementAccounted m.accounted execute' evaluate' turns) := by
  have hcorrespondence := correspondence halt hbare
  refine atOffset (countStatement.bind fun _ => (hcorrespondence.decode .byte).bind fun code => ?_)
  cases StatementOp.ofByte? code with
  | none => exact hcorrespondence.fail ⟨by rintro ⟨⟩, by rintro _ ⟨⟩⟩
  | some op =>
    have hop := hcorrespondence.statementWith hx he (call hx hbare he)
      (fun hturn => hcorrespondence.iterate hturn turns) op
      fun _ => hcorrespondence.declareClass fun _ => by rintro _ _ ⟨⟩
    rwa [Machine.statementWith_call] at hop

end Parts

/-- Where the machine is halted, its account is no longer than it may be. -/
theorem halted {x : Exec σ α} {x' y : Exec (Accounted σ) α} (hx : Tracks m halt x x')
    (hy : ∀ s, y s = if halt s then Exec.exhaust s else x' s) : Tracks m halt x y := by
  rw [Tracks] at hx ⊢
  intro s account hstore hcalls hdepth
  rw [hy]
  by_cases hhalt : halt (s.onAccount account) = true
  · rw [if_pos hhalt]
    exact .halted ⟨_, hhalt⟩ (hcalls ▸ hdepth)
  · rw [if_neg hhalt]
    exact hx s account hstore hcalls hdepth

variable (halt) in
/-- What keeps account inside keeps account outside, statements and expressions together. -/
theorem execute_evaluate (hbare : m.hosts.ReturnsBareErrors) (n : Nat) :
    Tracks m halt (Machine.execute m n) (Machine.executeAccounted m.accounted halt n) ∧
      Tracks m halt (Machine.evaluate m n) (Machine.evaluateAccounted m.accounted halt n) := by
  have hcorrespondence := correspondence halt hbare
  induction n with
  | zero =>
    have hexecute : Machine.executeAccounted m.accounted halt 0 = Exec.exhaust := by
      funext s
      rw [Machine.executeAccounted]
    have hevaluate : Machine.evaluateAccounted m.accounted halt 0 = Exec.exhaust := by
      funext s
      rw [Machine.evaluateAccounted]
    rw [hexecute, hevaluate]
    exact ⟨hcorrespondence.twins .exhaust, hcorrespondence.twins .exhaust⟩
  | succ n ih =>
    obtain ⟨hx, he⟩ := ih
    rw [Machine.execute_succ, Machine.evaluate_succ]
    constructor
    · refine halted (statement hx hbare he n) fun s => ?_
      rw [Machine.executeAccounted]
    · refine halted (hcorrespondence.expression he (call hx hbare he)) fun s => ?_
      rw [Machine.evaluateAccounted]

end Tracks

/-! ## Runs -/

namespace Machine

variable {m : Setup σ} {s t : State σ} {e : Error}

/-- A statement that fails has an offset to report. -/
theorem exists_offset_of_execute {n : Nat} (h : execute m n s = .error (.failed e) t) :
    ∃ start, e.offset = some start := by
  cases n with
  | zero =>
    rw [execute] at h
    cases h
  | succ n =>
    rw [execute_succ, statement, bind_of_ok (Exec.position_eq s), Exec.mapError] at h
    split at h
    · cases h
      exact ⟨_, Error.offset_atOffset ..⟩
    · rename_i hother
      exact absurd h (hother e t)

/-- A statement of the program is executed in its turn, if its errors know where they arose. -/
theorem afterStart_eq {execute : Exec σ Flow}
    (hoffset : ∀ s e t, execute s = .error (.failed e) t → ∃ start, e.offset = some start)
    (n start : Nat) :
    afterStart m execute n start = (do
      Exec.mapError (·.atOffset start) (executeClosed execute)
      topLevel m execute n) := by
  funext s
  simp only [afterStart, executeClosed, Exec.mapError, bind, EStateM.bind]
  cases hs : execute s with
  | ok flow t => cases flow <;> rfl
  | error stop t =>
    cases stop with
    | exhausted => rfl
    | failed e =>
      -- The offset is known already, and it is that of a statement further inside.
      obtain ⟨inner, hinner⟩ := hoffset s e t hs
      simp only [Error.atOffset_of_offset hinner]

end Machine

namespace Tracks

variable {m : Setup σ} {halt : State (Accounted σ) → Bool}

/-- Whoever executes a statement may refuse the signal that comes out of it. -/
theorem executeClosed (hbare : m.hosts.ReturnsBareErrors) {execute : Exec σ Flow}
    {execute' : Exec (Accounted σ) Flow} (hx : Tracks m halt execute execute') :
    Tracks m halt (Machine.executeClosed execute) (Machine.executeClosed execute') := by
  have hcorrespondence := correspondence halt hbare
  refine hx.bind fun flow => ?_
  cases flow with
  | normal => exact hcorrespondence.pure ()
  | breakLoop | returnValue => exact hcorrespondence.stray _

/-- The statements of a program are executed one after the other, each in its turn. -/
theorem topLevel {execute : Exec σ Flow} {execute' : Exec (Accounted σ) Flow}
    (hbare : m.hosts.ReturnsBareErrors) (hx : Tracks m halt execute execute')
    (hoffset : ∀ s e t, execute s = .error (.failed e) t → ∃ start, e.offset = some start)
    (n : Nat) :
    Tracks m halt (Machine.topLevel m execute n)
      (Machine.topLevelAccounted m.accounted execute' n) := by
  have hcorrespondence := correspondence halt hbare
  induction n with
  | zero =>
    rw [Machine.topLevelAccounted, Machine.topLevel_zero, Machine.topLevel_zero]
    refine hcorrespondence.position.bind fun start => ?_
    by_cases hstart : start < m.program.codeEnd
    · rw [if_pos hstart, if_pos hstart]
      exact hcorrespondence.twins .exhaust
    · rw [if_neg hstart, if_neg hstart]
      exact hcorrespondence.pure _
  | succ n ih =>
    rw [Machine.topLevelAccounted, Machine.topLevel_succ]
    refine hcorrespondence.position.bind fun start => ?_
    by_cases hstart : start < m.program.codeEnd
    · have hturn : Tracks m halt
          (Exec.mapError (·.atOffset start) (Machine.executeClosed execute))
          (Exec.opened (.turn start) (Machine.executeClosed execute')) := by
        have hclosed := executeClosed hbare hx
        rw [Tracks] at hclosed ⊢
        intro s account hstore hcalls hdepth
        have hinside := hclosed s (.turn start :: account) hstore hcalls hdepth
        exact hinside.opened
      rw [if_pos hstart, if_pos hstart, Machine.afterStart_eq hoffset]
      exact hturn.bind fun _ => ih
    · rw [if_neg hstart, if_neg hstart]
      exact hcorrespondence.pure _

end Tracks

/-! ## What the trace says -/

/-- The error arose where the account says. -/
structure Error.ArisesIn (e : Error) (m : Setup σ) (account : Account) : Prop where
  /-- The trace has the offset of the innermost statement and the frames of the active functions. -/
  trace : ∃ start, account.start? = some start ∧ e.trace =
    some { offset := some start, frames := account.calls.map (·.render m.program.names) }
  /-- Where too many calls are open, there is a frame for each call that may be open, unless a host
  function has reported the limit by itself. -/
  depth : ∀ limit, e.cause = .limitExceeded (.callDepth limit) →
    (∃ name, account.head? = some (.host name)) ∨
      limit = m.config.maxCallDepth ∧ e.frames.length = m.config.maxCallDepth

/-- A run that fails has an offset to report. -/
theorem Machine.exists_offset_of_topLevel {m : Setup σ} {execute : Exec σ Flow}
    (hoffset : ∀ s e t, execute s = .error (.failed e) t → ∃ start, e.offset = some start)
    {n : Nat} {s t : State σ} {e : Error} (h : topLevel m execute n s = .error (.failed e) t) :
    ∃ start, e.offset = some start := by
  induction n generalizing s with
  | zero =>
    rw [topLevel] at h
    split at h <;> cases h
  | succ n ih =>
    rw [topLevel] at h
    split at h
    · split at h
      · exact ih h
      · cases h
        exact ⟨_, Error.offset_atOffset ..⟩
      · rename_i hs
        cases h
        exact hoffset _ _ _ hs
    · cases h

/-- An error with an offset has the trace that its parts make up. -/
theorem Error.trace_of_offset {e : Error} {start : Nat} (h : e.offset = some start) :
    e.trace = some { offset := some start, frames := e.frames } := by
  obtain ⟨cause, _ | ⟨offset, frames⟩⟩ := e
  · cases h
  · obtain rfl : offset = some start := h
    rfl

/-- A run and the run that keeps account are compared from their beginning to their end. -/
theorem Setup.accords_run {m : Setup σ} (hbare : m.hosts.ReturnsBareErrors)
    (halt : State (Accounted σ) → Bool) (steps : Nat) (output echoed : Array String) (host : σ) :
    let s : State σ := .initial output echoed host
    Accords m (∃ t, halt t = true) 0 [] (m.runFrom steps s)
      (m.runAccounted halt steps (s.onAccount [])) := by
  intro s
  have hrun := Tracks.topLevel hbare (Tracks.execute_evaluate halt hbare steps).1
    (fun _ _ _ => Machine.exists_offset_of_execute) steps
  rw [Tracks] at hrun
  -- In the beginning no cell holds anything, and no call is open.
  exact hrun s [] (fun cell b hb => by simp [s] at hb) rfl (Nat.zero_le _)

/-- A program that calls a function out of which a signal comes. -/
def Builder.breakingOut : Builder :=
  Builder.empty.extend [.function ⟨1⟩ [] .breakLoop, .call ⟨1⟩ []]

end Bytewalk
