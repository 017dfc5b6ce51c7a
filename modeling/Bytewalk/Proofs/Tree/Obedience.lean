import Bytewalk.Proofs.Code.PassEncoding
import Bytewalk.Proofs.Machine.Limits
import Bytewalk.Proofs.Machine.PassExecution
import Bytewalk.Proofs.Tree.Signals

/-!
# Refusing no signal

An execution obeys if it yields what it should and refuses no signal. The first half holds in every
state; the second one needs a store in which every function that can be called has a disciplined
body, and a host that does not fail as if a signal had been refused, and it goes with the other
half: the functions that are bound have disciplined bodies as well.

The rules of this module put executions together from parts. To obey whatever comes out is a
correspondence of the machine with itself, and so all expressions obey where the calls inside them
do: `Obeys.correspondence`.
-/

namespace Bytewalk

variable {σ α β : Type}

/-! ## Disciplined stores -/

/-- The statement can be encoded, and the image holds its encoding at the offset. -/
structure Stands (image : Image) (p : Nat) (s : Stmt) : Prop where
  /-- The encoding stands at the offset. -/
  holds : image.Holds p s.encode
  /-- The statement can be encoded. -/
  encodable : s.Encodable

/-- A statement is passed over where it stands. -/
theorem Stands.passes {image : Image} {p : Nat} {s : Stmt} (h : Stands image p s) :
    Passes image [.statement] p (p + s.encode.length) :=
  h.encodable.fills p h.holds

/-- No host function fails as if a signal had been refused. -/
def Registry.RefusesNoSignal (hosts : Registry σ) : Prop :=
  ∀ f ∈ hosts.functions, ∀ keyword, ¬ f.MayFailWith (.strayControlFlow keyword)

/-- If the binding can be called, it is a registered host function, or a function whose body is a
disciplined statement out of which no signal comes that leaves a loop. -/
def Binding.IsDisciplined (m : Setup σ) : Binding σ → Prop
  | .function f => ∃ body, Stands m.program.image f.body body ∧ body.isDisciplined ∧
      body.mayRaise .leaveLoop = false
  | .host _ f => f ∈ m.hosts.functions
  | _ => True

theorem Binding.isDisciplined_of_isInert {m : Setup σ} {binding : Binding σ}
    (h : binding.IsInert) : binding.IsDisciplined m := by
  cases binding with
  | function | host => exact h.elim
  | _ => exact trivial

/-- Nothing that can be called refuses a signal. -/
structure Disciplined (m : Setup σ) (store : Store (Binding σ)) : Prop where
  /-- No host function does. -/
  hosts : m.hosts.RefusesNoSignal
  /-- What cells hold can be called without harm. -/
  cells : ∀ cell b, store.read? cell = some b → b.IsDisciplined m

namespace Disciplined

variable {m : Setup σ} {store : Store (Binding σ)}

theorem newChild (h : Disciplined m store) (parent : Scope) :
    Disciplined m (store.newChild parent).2 :=
  ⟨h.hosts, h.cells⟩

theorem bind (h : Disciplined m store) (scope : Scope) (name : Symbol) {binding : Binding σ}
    (hbinding : binding.IsDisciplined m) : Disciplined m (store.bind scope name binding).2 := by
  refine ⟨h.hosts, fun cell b hb => ?_⟩
  rcases store.read?_bind hb with hold | rfl
  · exact h.cells cell b hold
  · exact hbinding

theorem write (h : Disciplined m store) (cell : CellId) (constant : Bool) (value : Value) :
    Disciplined m (store.write cell (.variable constant value)) := by
  refine ⟨h.hosts, fun other b hb => ?_⟩
  rcases store.read?_write hb with hold | rfl
  · exact h.cells other b hold
  · exact trivial

/-- What is read of a cell that is not there cannot be called. -/
theorem read (h : Disciplined m store) (cell : CellId) :
    ((store.read? cell).getD default).IsDisciplined m := by
  cases hb : store.read? cell with
  | none => exact trivial
  | some b => exact h.cells cell b hb

end Disciplined

/-! ## Obedience -/

/-- What becomes of a store: a result is good, and if `w` holds, a disciplined store stays so and no
signal has been refused. -/
inductive Behaves (m : Setup σ) (w : Prop) (good : α → Nat → Prop) (store : Store (Binding σ)) :
    EStateM.Result Stop (State σ) α → Prop
  | ok {a : α} {t : State σ} (hgood : good a t.position)
      (hstore : w → Disciplined m store → Disciplined m t.store) :
      Behaves m w good store (.ok a t)
  | failed {e : Error} {t : State σ}
      (hcause : w → Disciplined m store → ∀ keyword, e.cause ≠ .strayControlFlow keyword) :
      Behaves m w good store (.error (.failed e) t)
  | exhausted {t : State σ} : Behaves m w good store (.error .exhausted t)

/-- From offset `p` on the execution yields something good at the offset where it ends, and if `w`
holds, it refuses no signal in a disciplined store, and leaves one. -/
@[irreducible]
def Obeys (m : Setup σ) (w : Prop) (p : Nat) (good : α → Nat → Prop) (x : Exec σ α) : Prop :=
  ∀ s : State σ, s.position = p → Behaves m w good s.store (x s)

/-- The execution obeys wherever it begins, whatever it yields. -/
abbrev ObeysAnywhere (m : Setup σ) (x : Exec σ α) : Prop :=
  ∀ p, Obeys m True p (fun _ _ => True) x

/-- Of two executions the first one obeys wherever it begins. -/
def ObeysBeside (m : Setup σ) (x _x' : Exec σ α) : Prop :=
  ObeysAnywhere m x

theorem ObeysAnywhere.beside {m : Setup σ} {x : Exec σ α} (h : ObeysAnywhere m x) :
    ObeysBeside m x x := h

variable {m : Setup σ} {w w' : Prop} {good good' : α → Nat → Prop} {p q : Nat}
  {store store' : Store (Binding σ)} {r : EStateM.Result Stop (State σ) α}

namespace Behaves

/-- It is enough to begin with a store that has become of a disciplined one. -/
theorem before (h : Behaves m w good store' r)
    (hstore : w → Disciplined m store → Disciplined m store') : Behaves m w good store r := by
  cases h with
  | ok hgood hafter => exact .ok hgood fun hw hs => hafter hw (hstore hw hs)
  | failed hcause => exact .failed fun hw hs => hcause hw (hstore hw hs)
  | exhausted => exact .exhausted

theorem mono (h : Behaves m w' good store r) (hw : w → w')
    (hgood : ∀ a q, good a q → good' a q) : Behaves m w good' store r := by
  cases h with
  | ok ha hafter => exact .ok (hgood _ _ ha) fun h => hafter (hw h)
  | failed hcause => exact .failed fun h => hcause (hw h)
  | exhausted => exact .exhausted

/-- On the way out of another context the store stays as it is. -/
theorem left (h : Behaves m w good store r) (s : State σ) (leave : State σ → State σ)
    (hgood : ∀ a t, good a t.position → good' a (leave t).position)
    (hstore : ∀ t, (leave t).store = t.store) :
    Behaves m w good' store (Exec.left (fun _ => leave) s r) := by
  cases h with
  | ok ha hafter => exact .ok (hgood _ _ ha) fun hw hs => (hstore _).symm ▸ hafter hw hs
  | failed hcause => exact .failed hcause
  | exhausted => exact .exhausted

end Behaves

/-- Whatever the execution yields is good. -/
def Exec.Yields (good : α → Prop) (x : Exec σ α) : Prop :=
  ∀ s a t, x s = .ok a t → good a

namespace Exec.Yields

variable {good : α → Prop}

theorem pure {a : α} (h : good a) : Exec.Yields good (Pure.pure a : Exec σ α) := by
  rintro s b t ⟨⟩
  exact h

theorem fail {cause : Cause} : Exec.Yields good (Exec.fail cause : Exec σ α) := by
  rintro s a t ⟨⟩

/-- What a composed execution yields, its last part does. -/
theorem bind {x : Exec σ β} {k : β → Exec σ α} (hk : ∀ b, Exec.Yields good (k b)) :
    Exec.Yields good (x >>= k) := by
  intro s a t h
  obtain ⟨b, u, -, hrest⟩ := eq_ok_of_bind h
  exact hk b u a t hrest

end Exec.Yields

namespace Obeys

variable {x : Exec σ α} {k : α → Exec σ β} {good'' : β → Nat → Prop}

theorem mono (h : Obeys m w' p good x) (hw : w → w') (hgood : ∀ a q, good a q → good' a q) :
    Obeys m w p good' x := by
  rw [Obeys] at h ⊢
  exact fun s hs => (h s hs).mono hw hgood

/-- To obey under a condition is to obey under a stricter one. -/
theorem under (h : Obeys m w' p good x) (hw : w → w') : Obeys m w p good x :=
  h.mono hw fun _ _ => id

theorem pure {a : α} (h : good a p) : Obeys m w p good (pure a) := by
  rw [Obeys]
  rintro s rfl
  exact .ok h fun _ => id

theorem bind (hx : Obeys m w p good x) (hk : ∀ a q, good a q → Obeys m w q good'' (k a)) :
    Obeys m w p good'' (x >>= k) := by
  rw [Obeys] at hx ⊢
  intro s hs
  have hfirst := hx s hs
  cases hxs : x s with
  | ok a t =>
    rw [hxs] at hfirst
    rw [bind_of_ok hxs]
    cases hfirst with
    | ok hgood hstore =>
      have hrest := hk a t.position hgood
      rw [Obeys] at hrest
      exact (hrest t rfl).before hstore
  | error stop t =>
    rw [hxs] at hfirst
    rw [bind_of_error hxs]
    cases hfirst with
    | failed hcause => exact .failed hcause
    | exhausted => exact .exhausted

/-- What comes out of the first part does not matter. -/
theorem andThen (hx : ObeysAnywhere m x) (hk : ∀ a q, Obeys m w q good'' (k a)) :
    Obeys m w p good'' (x >>= k) :=
  ((hx p).under fun _ => trivial).bind fun a q _ => hk a q

/-- A decoder whose result is known. -/
theorem decode {decoder : Decoder α} {a : α} (h : decoder p = .ok a q)
    (hk : Obeys m w q good'' (k a)) : Obeys m w p good'' (Exec.decode decoder >>= k) := by
  rw [Obeys] at hk ⊢
  rintro s rfl
  rw [bind_of_ok (Exec.decode_of_ok s h)]
  exact hk { s with position := q } rfl

theorem position {k : Nat → Exec σ β} (hk : Obeys m w p good'' (k p)) :
    Obeys m w p good'' (Exec.position >>= k) := by
  rw [Obeys] at hk ⊢
  rintro s rfl
  exact hk s rfl

theorem seek {k : Unit → Exec σ β} (hk : Obeys m w q good'' (k ())) :
    Obeys m w p good'' (Exec.seek q >>= k) := by
  rw [Obeys] at hk ⊢
  intro s _
  exact hk { s with position := q } rfl

/-- A scope is opened where the execution is. -/
theorem openScope {k : Scope → Exec σ β} (hk : ∀ scope, Obeys m w p good'' (k scope)) :
    Obeys m w p good'' (Exec.openScope >>= k) := by
  rw [Obeys]
  intro s hs
  have hrest := hk (s.store.newChild s.scope).1
  rw [Obeys] at hrest
  rw [bind_of_ok (Exec.openScope_eq s)]
  exact (hrest { s with store := (s.store.newChild s.scope).2 } hs).before
    fun _ hd => hd.newChild s.scope

theorem inScope {scope : Scope} (h : Obeys m w p good x) :
    Obeys m w p good (Exec.inScope scope x) := by
  rw [Obeys] at h ⊢
  intro s hs
  exact (h { s with scope } hs).left s (fun t => { t with scope := s.scope }) (fun _ _ => id)
    fun _ => rfl

theorem inModule {name : Symbol} (h : Obeys m w p good x) :
    Obeys m w p good (Exec.inModule name x) := by
  rw [Obeys] at h ⊢
  intro s hs
  exact (h { s with modules := s.modules ++ [name] } hs).left s
    (fun t => { t with modules := s.modules }) (fun _ _ => id) fun _ => rfl

/-- A call begins where the function does, and comes back to where it has been made. -/
theorem inCall {entry : Nat} {scope : Scope} {modules : List Symbol} (h : Obeys m w entry good x) :
    Obeys m w p (fun a _ => ∃ q, good a q) (Exec.inCall entry scope modules x) := by
  rw [Obeys] at h ⊢
  intro s _
  exact (h { s with position := entry, scope, modules, depth := s.depth + 1 } rfl).left s
    (fun t => { t with
      position := s.position
      scope := s.scope
      modules := s.modules
      depth := s.depth }) (fun _ t ha => ⟨t.position, ha⟩) fun _ => rfl

/-- Errors change without their causes. -/
theorem mapError {f : Error → Error} (hf : ∀ e, (f e).cause = e.cause) (h : Obeys m w p good x) :
    Obeys m w p good (Exec.mapError f x) := by
  rw [Obeys] at h ⊢
  intro s hs
  have hinside := h s hs
  rw [Exec.mapError]
  cases hxs : x s with
  | ok a t =>
    rw [hxs] at hinside
    exact hinside
  | error stop t =>
    rw [hxs] at hinside
    cases hinside with
    | failed hcause =>
      exact .failed fun hw hd keyword heq => hcause hw hd keyword ((hf _).symm.trans heq)
    | exhausted => exact .exhausted

theorem exhaust : Obeys m w p good (Exec.exhaust : Exec σ α) := by
  rw [Obeys]
  exact fun _ _ => .exhausted

/-- A failure for another reason. -/
theorem fail {cause : Cause} (h : ∀ keyword, cause ≠ .strayControlFlow keyword) :
    Obeys m w p good (Exec.fail cause : Exec σ α) := by
  rw [Obeys]
  exact fun _ _ => .failed fun _ _ => h

/-- A failure that does not happen. -/
theorem fail_of_not {cause : Cause} (h : ¬ w) : Obeys m w p good (Exec.fail cause : Exec σ α) := by
  rw [Obeys]
  exact fun _ _ => .failed fun hw => absurd hw h

/-- A cell is bound where the execution is. -/
theorem bindIn (names : NameTable) (scope : Scope) (name : Symbol) {binding : Binding σ}
    (h : w → binding.IsDisciplined m) :
    Obeys m w p (fun _ q => q = p) (Exec.bindIn names scope name binding) := by
  rw [Obeys]
  intro s hs
  rw [Exec.bindIn]
  split
  · exact .failed (by rintro _ _ _ ⟨⟩)
  · exact .ok hs fun hw hd => hd.bind scope name (h hw)

theorem bindHere (names : NameTable) (name : Symbol) {binding : Binding σ}
    (h : w → binding.IsDisciplined m) :
    Obeys m w p (fun _ q => q = p) (Exec.bindHere names name binding) := by
  rw [Obeys]
  intro s hs
  have hbind := bindIn (p := p) names s.scope name h
  rw [Obeys] at hbind
  exact hbind s hs

/-- As many executions take as many bytes. -/
theorem collect {width : Nat} (h : ∀ p, Obeys m w p (fun _ q => q = p + width) x) (n : Nat) :
    Obeys m w p (fun _ q => q = p + n * width) (Exec.collect x n) := by
  induction n generalizing p with
  | zero => exact .pure (by omega)
  | succ n ih =>
    refine (h p).bind fun a q hq => ih.bind fun rest r hr => .pure ?_
    rw [hr, hq, Nat.succ_mul]
    omega

/-- The last turn. -/
theorem last {good : α → Prop} {a : α} (h : good a) :
    Obeys m w p (fun next _ => ∀ b, next = some b → good b)
      (Pure.pure (some a) : Exec σ (Option α)) := by
  refine .pure ?_
  rintro _ ⟨⟩
  exact h

/-- A turn behind which there is another one. -/
theorem again {good : α → Prop} :
    Obeys m w p (fun next _ => ∀ b, next = some b → good b)
      (Pure.pure none : Exec σ (Option α)) :=
  .pure (by rintro _ ⟨⟩)

/-- Turns obey together if each of them does, wherever it begins. -/
theorem iterate {turn : Exec σ (Option α)} {good : α → Prop}
    (h : ∀ p, Obeys m w p (fun next _ => ∀ a, next = some a → good a) turn) (n : Nat) :
    Obeys m w p (fun a _ => good a) (Exec.iterate turn n) := by
  induction n generalizing p with
  | zero => exact .exhaust
  | succ n ih =>
    rw [Exec.iterate_succ]
    refine (h p).bind fun next q hnext => ?_
    cases next with
    | none => exact ih
    | some a => exact .pure (hnext a rfl)

/-- More may be known of the results. -/
theorem strengthen (h : Obeys m w p good x)
    (hgood : ∀ s a t, s.position = p → x s = .ok a t → good a t.position → good' a t.position) :
    Obeys m w p good' x := by
  rw [Obeys] at h ⊢
  intro s hs
  have hends := h s hs
  cases hxs : x s with
  | ok a t =>
    rw [hxs] at hends
    cases hends with
    | ok ha hstore => exact .ok (hgood s a t hs hxs ha) hstore
  | error stop t =>
    rw [hxs] at hends
    cases hends with
    | failed hcause => exact .failed hcause
    | exhausted => exact .exhausted

/-- An execution that follows fields ends behind the bytes that fill them. -/
theorem ending {bytes : List UInt8} {fields : List Field} {there : α → Prop}
    (h : Obeys m w p good x) (hbytes : m.program.image.Holds p bytes)
    (hfills : Fills m.program.image fields bytes)
    (hfollows : ∀ s, Follows m s.position fields there x s) :
    Obeys m w p (fun a q => good a q ∧ (there a → q = p + bytes.length)) x := by
  refine h.strengthen fun s a t hs hxs ha => ⟨ha, fun hthere => ?_⟩
  have hpasses := (hfollows s).passes hxs hthere
  rw [hs] at hpasses
  exact hpasses.unique (hfills p hbytes)

/-- Whatever becomes of the store, all results are good. -/
theorem yielding {there : α → Prop} (hx : ObeysAnywhere m x) (hyields : Exec.Yields there x) :
    Obeys m w p (fun a _ => there a) x :=
  ((hx p).under fun _ => trivial).strengthen fun s a t _ hxs _ => hyields s a t hxs

theorem withinDepth (h : Obeys m w p good x) : Obeys m w p good (Machine.withinDepth m x) := by
  rw [Obeys] at h ⊢
  intro s hs
  rw [Machine.withinDepth]
  split
  · exact .failed (by rintro _ _ _ ⟨⟩)
  · exact h s hs

theorem countStatement : Obeys m w p (fun _ q => q = p) (Machine.countStatement m) := by
  rw [Obeys]
  intro s hs
  rcases Machine.countStatement_cases m s with hlt | ⟨limit, hfuel, hle⟩
  · rw [Machine.countStatement_of_lt hlt]
    exact .ok hs fun _ => id
  · rw [Machine.countStatement_of_le hfuel hle]
    exact .failed (by rintro _ _ _ ⟨⟩)

/-! ## Expressions -/

theorem twins {x' : Exec σ α} (h : Machine.Twins m id (Binding.IsDisciplined m) x x') :
    ObeysAnywhere m x := by
  intro p
  rw [Obeys]
  intro s _
  cases h with
  | pure | seek | position | scope | qualify => exact .ok trivial fun _ => id
  | exhaust => exact .exhausted
  | fail hplain => exact .failed fun _ _ => hplain.noStray
  | @lift _ result hover =>
    cases result with
    | ok a => exact .ok trivial fun _ => id
    | error e =>
      -- To refuse a signal is no failure over types.
      refine .failed fun _ _ keyword heq => ?_
      have htyping := (hover e rfl).category_eq
      rw [heq] at htyping
      cases htyping
  | @decode _ decoder hreads =>
    cases hread : decoder s.position with
    | ok a q =>
      rw [Exec.decode_of_ok s hread]
      exact .ok trivial fun _ => id
    | error e q =>
      rw [Exec.decode_of_error s hread]
      cases hreads.failsOverForm _ _ _ hread with
      | malformed | unknown => exact .failed (by rintro _ _ _ ⟨⟩)
  | resolve name =>
    cases hfound : s.store.lookup? s.scope name with
    | some cell =>
      rw [Exec.resolve_of_some s hfound]
      exact .ok trivial fun _ => id
    | none =>
      rw [Exec.resolve_of_none s hfound]
      exact .failed (by rintro _ _ _ ⟨⟩)
  | openIn parent => exact .ok trivial fun _ hd => hd.newChild parent
  | bindIn scope name hbinding =>
    have hbind := bindIn (p := s.position) m.program.names scope name fun _ : True => hbinding
    rw [Obeys] at hbind
    exact (hbind s rfl).mono id fun _ _ _ => trivial
  | write cell value => exact .ok trivial fun _ hd => hd.write cell false value

/-- What is read of a disciplined store can be called without harm. -/
theorem read {cell : CellId} {k : Binding σ → Exec σ α}
    (hk : ∀ b, b.IsDisciplined m → ObeysAnywhere m (k b)) :
    ObeysAnywhere m (Exec.read cell >>= k) := by
  intro p
  rw [Obeys]
  intro s hs
  rw [bind_of_ok (Exec.read_eq s cell)]
  by_cases hd : Disciplined m s.store
  · have hrest := hk _ (hd.read cell) p
    rw [Obeys] at hrest
    exact hrest s hs
  · -- In another store nothing is said of what is called.
    cases k ((s.store.read? cell).getD default) s with
    | ok a t => exact .ok trivial fun _ h => absurd h hd
    | error stop t =>
      cases stop with
      | failed e => exact .failed fun _ h => absurd h hd
      | exhausted => exact .exhausted

/-- A host function that fails does not refuse a signal. -/
theorem callHost {f : HostFunction σ} (hf : f ∈ m.hosts.functions) (args : List Value) :
    ObeysAnywhere m (Machine.callHost f args) := by
  intro p
  rw [Obeys]
  intro s _
  rw [Machine.callHost, HostFunction.call]
  split
  · rename_i value host haction
    exact .ok trivial fun _ => id
  · rename_i e host hfails
    split at hfails
    -- It has failed by itself, or it has not been called with as many arguments as it takes.
    · refine .failed fun _ hd keyword heq => ?_
      exact hd.hosts f hf keyword ⟨args, s.host, e, host, hfails, heq⟩
    · cases hfails
      exact .failed (by rintro _ _ _ ⟨⟩)

/-- To obey is a correspondence of the machine with itself. -/
theorem correspondence :
    Machine.Correspondence m m.hosts m.config id (Binding.IsDisciplined m)
      (fun {_} => ObeysBeside m) where
  inert := Binding.isDisciplined_of_isInert
  registered hf _ := List.mem_of_find?_eq_some hf
  hosts name := (Option.map_id_apply ..).symm
  twins := twins
  bind hx hk p := andThen hx hk
  read := read
  inScope hx p := (hx p).inScope
  inModule hx p := (hx p).inModule
  callHost hf args := callHost hf args
  emitLine line p := by
    rw [Obeys]
    intro s _
    rw [Machine.emitLine_eq]
    refine .ok trivial fun _ hd => ?_
    split <;> exact hd

end Obeys

end Bytewalk
