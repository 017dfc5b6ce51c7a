import Bytewalk.Machine.Run
import Bytewalk.Proofs.Code.Literal
import Bytewalk.Proofs.Code.Passage
import Bytewalk.Proofs.Machine.Equations
import Bytewalk.Proofs.Scope.Store

/-!
# Following a layout

An execution follows a list of fields when it moves the position as a passage over the fields
does, and fails over the form of the image only where there is no such passage. Both halves go
together: where a part of an execution ends tells where the next part begins, and a passage over
the whole is a passage over that next part as well.

The rules of this module put executions together from parts; `Follows.bind` is the main one.
-/

namespace Bytewalk

/-! ## Failures over the form of the image -/

/-- The image itself is at fault: a count or a length promises too much, or a byte does not begin
what is read. Operators do not count, which are not looked at before they are applied. -/
def Cause.IsStructural : Cause → Prop
  | .malformed _ => True
  | .unknownOpcode construct _ => construct ≠ "unary operator" ∧ construct ≠ "binary operator"
  | _ => False

/-- Failures over the form of the image are format errors. -/
theorem Cause.IsStructural.category_eq {cause : Cause} (h : cause.IsStructural) :
    cause.category = .format := by
  cases cause <;> first | rfl | exact h.elim

/-- Some call of the host function fails with the cause. -/
def HostFunction.MayFailWith {σ : Type} (f : HostFunction σ) (cause : Cause) : Prop :=
  ∃ args host e after, f.action args host = (.error e, after) ∧ e.cause = cause

variable {σ α β : Type}

/-- The execution stops with a failure over the form of the image that no host function has made
up. -/
def Stop.IsStructural (m : Setup σ) : Stop → Prop
  | .failed e => e.cause.IsStructural ∧ ∀ f ∈ m.hosts.functions, ¬ f.MayFailWith e.cause
  | .exhausted => False

/-! ## Sound stores -/

/-- Every function body in the store can be passed over, and the host functions are registered
ones. -/
structure Sound (m : Setup σ) (store : Store (Binding σ)) : Prop where
  /-- Bodies begin where a statement can be passed over. -/
  bodies : ∀ cell f, store.read? cell = some (.function f) →
    ∃ q, Passes m.program.image [.statement] f.body q
  /-- Host functions come from the registry. -/
  imported : ∀ cell name f, store.read? cell = some (.host name f) → f ∈ m.hosts.functions

namespace Sound

variable {m : Setup σ} {store : Store (Binding σ)}

/-- A new frame changes no cell. -/
theorem newChild (h : Sound m store) (parent : Scope) : Sound m (store.newChild parent).2 :=
  ⟨h.bodies, h.imported⟩

/-- A new cell may hold everything but a function whose body cannot be passed over or a host
function that is not registered. -/
theorem bind (h : Sound m store) (scope : Scope) (s : Symbol) {content : Binding σ}
    (hbody : ∀ f, content = .function f → ∃ q, Passes m.program.image [.statement] f.body q)
    (hhost : ∀ name f, content = .host name f → f ∈ m.hosts.functions) :
    Sound m (store.bind scope s content).2 := by
  refine ⟨fun cell f hf => ?_, fun cell name f hf => ?_⟩
  · rcases store.read?_bind hf with hold | hnew
    · exact h.bodies cell f hold
    · exact hbody f hnew.symm
  · rcases store.read?_bind hf with hold | hnew
    · exact h.imported cell name f hold
    · exact hhost name f hnew.symm

/-- Writing a variable adds no function. -/
theorem write (h : Sound m store) (cell : CellId) (constant : Bool) (value : Value) :
    Sound m (store.write cell (.variable constant value)) := by
  refine ⟨fun other f hf => ?_, fun other name f hf => ?_⟩
  · rcases store.read?_write hf with hold | hnew
    · exact h.bodies other f hold
    · cases hnew
  · rcases store.read?_write hf with hold | hnew
    · exact h.imported other name f hold
    · cases hnew

end Sound

/-! ## Following -/

/-- From state `s` the execution follows the fields that begin at offset `p`: if it yields
something good it ends behind them, it fails over the form of the image only where there is no
passage over them, and it keeps the store sound however it ends. -/
@[irreducible]
def Follows (m : Setup σ) (p : Nat) (fields : List Field) (good : α → Prop) (x : Exec σ α)
    (s : State σ) : Prop :=
  match x s with
  | .ok a t =>
    (Sound m s.store → Sound m t.store) ∧
      (good a → Passes m.program.image fields p t.position)
  | .error stop t =>
    (Sound m s.store → Sound m t.store) ∧
      (Sound m s.store → stop.IsStructural m → ∀ q, ¬ Passes m.program.image fields p q)

/-- From state `s` the execution yields nothing good and does not fail over the form of the
image. -/
def Strays (m : Setup σ) (good : α → Prop) (x : Exec σ α) (s : State σ) : Prop :=
  match x s with
  | .ok a t => (Sound m s.store → Sound m t.store) ∧ ¬ good a
  | .error stop t =>
    (Sound m s.store → Sound m t.store) ∧ (Sound m s.store → ¬ stop.IsStructural m)

variable {m : Setup σ} {p : Nat} {first rest fields : List Field} {good : α → Prop}
  {x : Exec σ α} {k : α → Exec σ β} {s : State σ}

/-- An execution that strays follows anything. -/
theorem Strays.follows (h : Strays m good x s) : Follows m p fields good x s := by
  rw [Strays] at h
  rw [Follows]
  cases hx : x s with
  | ok a t =>
    rw [hx] at h
    exact ⟨h.1, fun hgood => absurd hgood h.2⟩
  | error stop t =>
    rw [hx] at h
    exact ⟨h.1, fun hsound hstop => absurd hstop (h.2 hsound)⟩

/-- Returning what is not good is straying. -/
theorem Strays.pure {a : α} (h : ¬ good a) : Strays m good (pure a) s :=
  ⟨id, h⟩

/-- Failing for another reason than the form of the image is straying. -/
theorem Strays.fail {cause : Cause} (h : ¬ cause.IsStructural) :
    Strays m good (Exec.fail cause) s :=
  ⟨id, fun _ hstop => h hstop.1⟩

namespace Follows

/-- Returning follows what has been passed over already. -/
theorem pure {a : α} (h : good a → Passes m.program.image fields p s.position) :
    Follows m p fields good (pure a) s := by
  rw [Follows]
  exact ⟨id, h⟩

/-- Returning follows no fields. -/
theorem return_nil {a : α} : Follows m s.position [] good (return a) s :=
  Follows.pure fun _ => passes_nil.2 rfl

/-- What follows some fields behind others follows all of them. -/
theorem behind {q : Nat} (hx : Follows m q rest good x s)
    (hfirst : Passes m.program.image first p q) : Follows m p (first ++ rest) good x s := by
  rw [Follows] at hx ⊢
  cases hxs : x s with
  | ok a t =>
    rw [hxs] at hx
    exact ⟨hx.1, fun ha => passes_append.2 ⟨q, hfirst, hx.2 ha⟩⟩
  | error stop t =>
    rw [hxs] at hx
    refine ⟨hx.1, fun hsound hstop r hpass => ?_⟩
    -- A passage over all fields leads behind the first ones to where the execution has begun.
    obtain ⟨q', hfirst', hrest⟩ := passes_append.1 hpass
    rw [hfirst'.unique hfirst] at hrest
    exact hx.2 hsound hstop r hrest

/-- An execution that follows fields may be continued: where it yields something good the rest
follows the fields behind, and otherwise the rest begins anew. -/
theorem bindOr {good' : β → Prop} (hx : Follows m p first good x s)
    (hgood : ∀ a t, x s = .ok a t → good a → Follows m t.position rest good' (k a) t)
    (hanew : ∀ a t, x s = .ok a t → ¬ good a → Follows m p (first ++ rest) good' (k a) t) :
    Follows m p (first ++ rest) good' (x >>= k) s := by
  rw [Follows] at hx ⊢
  cases hxs : x s with
  | error stop t =>
    rw [hxs] at hx
    rw [bind_of_error hxs]
    refine ⟨hx.1, fun hsound hstop q hpass => ?_⟩
    obtain ⟨r, hfirst, -⟩ := passes_append.1 hpass
    exact hx.2 hsound hstop r hfirst
  | ok a t =>
    rw [hxs] at hx
    rw [bind_of_ok hxs]
    -- Either way the rest follows all the fields from `p` on, and the store stays sound.
    have hk : Follows m p (first ++ rest) good' (k a) t := by
      by_cases ha : good a
      · exact (hgood a t hxs ha).behind (hx.2 ha)
      · exact hanew a t hxs ha
    rw [Follows] at hk
    cases hks : k a t with
    | ok b u =>
      rw [hks] at hk
      exact ⟨fun hsound => hk.1 (hx.1 hsound), hk.2⟩
    | error stop u =>
      rw [hks] at hk
      exact ⟨fun hsound => hk.1 (hx.1 hsound), fun hsound => hk.2 (hx.1 hsound)⟩

/-- An execution that follows fields may be continued: where it yields something good the rest
follows the fields behind, and otherwise the rest strays. -/
theorem bind {good' : β → Prop} (hx : Follows m p first good x s)
    (hgood : ∀ a t, x s = .ok a t → good a → Follows m t.position rest good' (k a) t)
    (hstray : ∀ a t, x s = .ok a t → ¬ good a → Strays m good' (k a) t) :
    Follows m p (first ++ rest) good' (x >>= k) s :=
  hx.bindOr hgood fun a t h ha => (hstray a t h ha).follows

/-- An execution all of whose results are good is continued behind its fields. -/
theorem andThen {good' : β → Prop} (hx : Follows m p first (fun _ => True) x s)
    (hk : ∀ a t, x s = .ok a t → Follows m t.position rest good' (k a) t) :
    Follows m p (first ++ rest) good' (x >>= k) s :=
  hx.bind (fun a t h _ => hk a t h) fun _ _ _ h => absurd trivial h

/-- Other fields at another offset are followed as well if their passages have the same ends. -/
theorem congr {q : Nat} {fields' : List Field} (h : Follows m p fields good x s)
    (hends : ∀ r, Passes m.program.image fields' q r ↔ Passes m.program.image fields p r) :
    Follows m q fields' good x s := by
  rw [Follows] at h ⊢
  simpa only [hends] using h

/-- An execution that yields a result without moving follows no fields. -/
theorem of_still {a : α} {t : State σ} (hx : x s = .ok a t) (hposition : t.position = s.position)
    (hsound : Sound m s.store → Sound m t.store) : Follows m s.position [] good x s := by
  rw [Follows, hx]
  exact ⟨hsound, fun _ => passes_nil.2 hposition⟩

/-- An execution that fails for another reason than the form of the image follows anything. -/
theorem of_failed {e : Error} {t : State σ} (hx : x s = .error (.failed e) t)
    (hsound : Sound m s.store → Sound m t.store)
    (hcause : Sound m s.store → ¬ e.cause.IsStructural) : Follows m p fields good x s := by
  rw [Follows, hx]
  exact ⟨hsound, fun h hstop => absurd hstop.1 (hcause h)⟩

/-- In an unsound store only the results count. -/
theorem of_unsound (hunsound : ¬ Sound m s.store)
    (hok : ∀ a t, x s = .ok a t → Passes m.program.image fields p t.position) :
    Follows m p fields good x s := by
  rw [Follows]
  cases hx : x s with
  | ok a t => exact ⟨fun h => absurd h hunsound, fun _ => hok a t hx⟩
  | error stop t => exact ⟨fun h => absurd h hunsound, fun h => absurd h hunsound⟩

/-- An execution that comes to the same as another one from another state follows what that one
follows. -/
theorem of_eq {y : Exec σ α} {t : State σ} (h : Follows m p fields good y t) (heq : x s = y t)
    (hsound : Sound m s.store → Sound m t.store) : Follows m p fields good x s := by
  rw [Follows] at h ⊢
  rw [heq]
  cases hy : y t with
  | ok b u =>
    rw [hy] at h
    exact ⟨fun hs => h.1 (hsound hs), h.2⟩
  | error stop u =>
    rw [hy] at h
    exact ⟨fun hs => h.1 (hsound hs), fun hs => h.2 (hsound hs)⟩

/-- Where the first part yields a result, the rest is what counts. -/
theorem of_ok {a : α} {t : State σ} {good' : β → Prop} (hx : x s = .ok a t)
    (hsound : Sound m s.store → Sound m t.store) (hk : Follows m p fields good' (k a) t) :
    Follows m p fields good' (x >>= k) s :=
  hk.of_eq (bind_of_ok hx) hsound

/-- A part and the parts behind it are one part more. -/
theorem nodes_succ {kind : Node} {n : Nat}
    (h : Follows m p ([.nodes kind 1] ++ [.nodes kind n]) good x s) :
    Follows m p [.nodes kind (n + 1)] good x s :=
  h.congr fun _ => by rw [passes_append, passes_nodes_succ]

/-! ### Decoders -/

/-- A decoder that reads its fields, and fails only where they cannot be passed over, follows
them. -/
theorem decode {decoder : Decoder α}
    (hok : ∀ a q, decoder s.position = .ok a q → Passes m.program.image fields s.position q)
    (herror : ∀ e q, decoder s.position = .error e q →
      ∀ r, ¬ Passes m.program.image fields s.position r) :
    Follows m s.position fields (fun _ => True) (Exec.decode decoder) s := by
  rw [Follows]
  cases hdecoder : decoder s.position with
  | ok a q => simp [Exec.decode, hdecoder, hok a q hdecoder]
  | error e q =>
    have := herror e q hdecoder
    simp [Exec.decode, hdecoder, this]

/-- Passing over a statement follows it. -/
theorem passStatement :
    Follows m s.position [.statement] (fun _ => True)
      (Exec.decode (Decoder.passStatement m.program.image)) s := by
  refine decode (fun _ _ h => h) fun e q h r hpass => ?_
  rw [passStatement_eq_ok.2 hpass] at h
  cases h

/-- Passing over an optional statement follows it. -/
theorem passOptionalStatement :
    Follows m s.position [.optional .statement] (fun _ => True)
      (Exec.decode (Decoder.passOptionalStatement m.program.image)) s := by
  refine decode (fun _ _ h => h) fun e q h r hpass => ?_
  rw [passOptionalStatement_eq_ok.2 hpass] at h
  cases h

/-- A byte is passed over. -/
theorem byte :
    Follows m s.position [.raw 1] (fun _ => True)
      (Exec.decode (Decoder.byte m.program.image)) s := by
  refine decode (fun a q h => ?_) fun e q h => ?_
  · cases h
    exact passes_raw.2 rfl
  · cases h

/-- A symbol is passed over. -/
theorem symbol :
    Follows m s.position [.symbol] (fun _ => True)
      (Exec.decode (Decoder.symbol m.program.image)) s := by
  refine decode (fun a q h => ?_) fun e q h => ?_
  · cases h
    exact passes_raw.2 rfl
  · cases h

/-- A literal is passed over. -/
theorem literal :
    Follows m s.position [.literal] (fun _ => True)
      (Exec.decode (Decoder.literal m.program.image)) s := by
  refine decode (fun a q h => ?_) fun e q h r hpass => ?_
  · rw [passes_literal, Decoder.passLiteral_eq, bind_of_ok h]
    rfl
  · rw [passes_literal, Decoder.passLiteral_eq, bind_of_error h] at hpass
    cases hpass

/-- An optional part is either the zero byte, or a part that the rest follows. -/
theorem optional {kind : Node} {k : Bool → Exec σ β} {good : β → Prop}
    (hthere : Follows m s.position [.nodes kind 1] good (k true) s)
    (hmissing : Follows m (s.position + 1) [] good (k false)
      { s with position := s.position + 1 }) :
    Follows m s.position [.optional kind] good
      (Exec.decode (Decoder.present m.program.image) >>= k) s := by
  by_cases hzero : m.program.image.byteAt s.position = 0
  · have hpresent := Exec.decode_of_ok s (Decoder.present_of_zero hzero)
    refine of_ok hpresent id (hmissing.congr fun r => ?_)
    rw [passes_optional_of_zero hzero, passes_nil]
  · have hpresent := Exec.decode_of_ok s (Decoder.present_of_ne_zero hzero)
    refine of_ok hpresent id (hthere.congr fun r => ?_)
    exact passes_optional_of_ne_zero hzero

/-- A counted list is a count, and so many parts that the rest follows. -/
theorem counted {kind : Node} {k : Nat → Exec σ β} {good : β → Prop}
    (h : ∀ n q, Follows m q [.nodes kind n] good (k n) { s with position := q }) :
    Follows m s.position [.counted kind] good
      (Exec.decode (Decoder.count m.program.image 1) >>= k) s := by
  cases hcount : Decoder.count m.program.image 1 s.position with
  | ok n q =>
    refine of_ok (Exec.decode_of_ok s hcount) id ((h n q).congr fun r => ?_)
    rw [passes_counted, hcount]
    constructor
    · rintro ⟨_, _, heq, hnodes⟩
      cases heq
      exact hnodes
    · exact fun hnodes => ⟨n, q, rfl, hnodes⟩
  | error e q =>
    rw [Follows, bind_of_error (Exec.decode_of_error s hcount)]
    refine ⟨id, fun _ _ r hpass => ?_⟩
    obtain ⟨_, _, heq, -⟩ := passes_counted.1 hpass
    rw [hcount] at heq
    cases heq

/-- Counted symbols are a count, and four bytes for each symbol, that the rest follows. -/
theorem symbols {k : Nat → Exec σ β} {good : β → Prop}
    (h : ∀ n q, Follows m q ([.raw (n * 4)] ++ rest) good (k n) { s with position := q }) :
    Follows m s.position ([.symbols] ++ rest) good
      (Exec.decode (Decoder.count m.program.image 4) >>= k) s := by
  cases hcount : Decoder.count m.program.image 4 s.position with
  | ok n q =>
    refine of_ok (Exec.decode_of_ok s hcount) id ((h n q).congr fun r => ?_)
    simp only [passes_append, passes_symbols, passes_raw, hcount, EStateM.Result.ok.injEq]
    constructor
    · rintro ⟨_, ⟨_, _, ⟨rfl, rfl⟩, rfl⟩, hrest⟩
      exact ⟨_, rfl, hrest⟩
    · rintro ⟨_, rfl, hrest⟩
      exact ⟨_, ⟨n, q, ⟨rfl, rfl⟩, rfl⟩, hrest⟩
  | error e q =>
    rw [Follows, bind_of_error (Exec.decode_of_error s hcount)]
    refine ⟨id, fun _ _ r hpass => ?_⟩
    obtain ⟨_, hfirst, -⟩ := passes_append.1 hpass
    obtain ⟨_, _, heq, -⟩ := passes_symbols.1 hfirst
    rw [hcount] at heq
    cases heq

/-- An optional symbol is either the zero byte, or a symbol that the rest follows. -/
theorem optionalSymbol {k : Bool → Exec σ β} {good : β → Prop}
    (hthere : Follows m s.position [.symbol] good (k true) s)
    (hmissing : Follows m (s.position + 1) [] good (k false)
      { s with position := s.position + 1 }) :
    Follows m s.position [.optionalSymbol] good
      (Exec.decode (Decoder.present m.program.image) >>= k) s := by
  by_cases hzero : m.program.image.byteAt s.position = 0
  · have hpresent := Exec.decode_of_ok s (Decoder.present_of_zero hzero)
    refine of_ok hpresent id (hmissing.congr fun r => ?_)
    rw [passes_optionalSymbol_of_zero hzero, passes_nil]
  · have hpresent := Exec.decode_of_ok s (Decoder.present_of_ne_zero hzero)
    refine of_ok hpresent id (hthere.congr fun r => ?_)
    rw [passes_optionalSymbol_of_ne_zero hzero, passes_raw]

/-- Members are passed over one by one. -/
theorem members :
    Follows m s.position [.counted .statement] (fun _ => True)
      (Exec.decode (Decoder.members m.program.image)) s := by
  refine decode (fun a q h => passes_members.2 ⟨a, h⟩) fun e q h r hpass => ?_
  obtain ⟨a, hmembers⟩ := passes_members.1 hpass
  rw [h] at hmembers
  cases hmembers

/-- A part is a byte that begins it, and the fields of its layout that the rest follows. -/
theorem node {kind : Node} {k : UInt8 → Exec σ β} {good : β → Prop}
    (hunknown : ∀ byte, kind.layout? byte = none → ∃ cause, k byte = Exec.fail cause)
    (hknown : ∀ byte fields, kind.layout? byte = some fields → ∀ t : State σ,
      Follows m t.position fields good (k byte) t) :
    Follows m s.position [.nodes kind 1] good
      (Exec.decode (Decoder.byte m.program.image) >>= k) s := by
  refine of_ok (Exec.decode_of_ok s rfl) id ?_
  cases hlayout : kind.layout? (m.program.image.byteAt s.position) with
  | none =>
    -- There is no passage over a byte that begins nothing.
    obtain ⟨cause, hcause⟩ := hunknown _ hlayout
    rw [hcause, Follows, Exec.fail_eq]
    refine ⟨id, fun _ _ q hpass => ?_⟩
    obtain ⟨fields, hfields, -⟩ := passes_node.1 hpass
    rw [hlayout] at hfields
    cases hfields
  | some fields =>
    refine (hknown _ fields hlayout { s with position := s.position + 1 }).congr fun r => ?_
    rw [passes_node, hlayout]
    simp

/-! ### Other contexts -/

/-- Opening a scope reads no bytes. -/
theorem openScope {k : Scope → Exec σ β} {good : β → Prop}
    (h : Follows m p fields good (k (s.store.newChild s.scope).1)
      { s with store := (s.store.newChild s.scope).2 }) :
    Follows m p fields good (Exec.openScope >>= k) s :=
  of_ok (Exec.openScope_eq s) (fun hsound => hsound.newChild s.scope) h

/-- An execution in another scope follows the same fields. -/
theorem inScope {scope : Scope} (h : Follows m p fields good x { s with scope }) :
    Follows m p fields good (Exec.inScope scope x) s := by
  rw [Follows] at h ⊢
  rw [Exec.inScope]
  cases hx : x { s with scope } with
  | ok a t => simpa only [hx] using h
  | error stop t => simpa only [hx] using h

/-- An execution with one more module around follows the same fields. -/
theorem inModule {name : Symbol}
    (h : Follows m p fields good x { s with modules := s.modules ++ [name] }) :
    Follows m p fields good (Exec.inModule name x) s := by
  rw [Follows] at h ⊢
  rw [Exec.inModule]
  cases hx : x { s with modules := s.modules ++ [name] } with
  | ok a t => simpa only [hx] using h
  | error stop t => simpa only [hx] using h

/-- A change of errors that keeps their causes leaves what is followed. -/
theorem mapError {f : Error → Error} (hf : ∀ e, (f e).cause = e.cause)
    (h : Follows m p fields good x s) : Follows m p fields good (Exec.mapError f x) s := by
  rw [Follows] at h ⊢
  rw [Exec.mapError]
  cases hx : x s with
  | ok a t => simpa only [hx] using h
  | error stop t =>
    cases stop with
    | failed e => simpa only [hx, Stop.IsStructural, hf] using h
    | exhausted => simpa only [hx] using h

/-! ### Repetition -/

/-- Fields one behind the other are followed by as many executions. -/
theorem collect_of_succ (fields : Nat → List Field)
    (hzero : ∀ p, Passes m.program.image (fields 0) p p)
    (hsucc : ∀ n p q, Passes m.program.image (fields (n + 1)) p q ↔
      Passes m.program.image (fields 1 ++ fields n) p q)
    (h : ∀ s, Follows m s.position (fields 1) (fun _ => True) x s) (n : Nat) :
    ∀ s, Follows m s.position (fields n) (fun _ => True) (Exec.collect x n) s := by
  induction n with
  | zero => exact fun s => Follows.pure fun _ => hzero s.position
  | succ n ih =>
    intro s
    refine Follows.congr ?_ (hsucc n s.position)
    refine (h s).andThen fun a t _ => ?_
    rw [← List.append_nil (fields n)]
    exact (ih t).andThen fun _ _ _ => return_nil

/-- Parts one behind the other are followed by as many executions. -/
theorem collect {kind : Node} (h : ∀ s, Follows m s.position [.nodes kind 1] (fun _ => True) x s)
    (n : Nat) : ∀ s, Follows m s.position [.nodes kind n] (fun _ => True) (Exec.collect x n) s :=
  collect_of_succ (fun n => [.nodes kind n]) (fun _ => passes_nodes_zero.2 rfl)
    (fun _ _ _ => by rw [passes_append, passes_nodes_succ]) h n

/-- Symbols one behind the other are followed by as many executions. -/
theorem collectSymbols (h : ∀ s, Follows m s.position [.symbol] (fun _ => True) x s)
    (n : Nat) : ∀ s, Follows m s.position [.raw (n * 4)] (fun _ => True) (Exec.collect x n) s :=
  collect_of_succ (fun n => [.raw (n * 4)]) (fun _ => passes_raw.2 (by omega))
    (fun n p q => by
      simp only [passes_append, passes_raw]
      constructor
      · exact fun hq => ⟨_, rfl, by omega⟩
      · rintro ⟨_, rfl, hq⟩
        omega) h n

/-- Executions for the items of a list that follow no fields follow none together. -/
theorem forM {ι : Type} {items : List ι} {f : ι → Exec σ PUnit}
    (h : ∀ i, ∀ s, Follows m s.position [] (fun _ => True) (f i) s) :
    ∀ s, Follows m s.position [] (fun _ => True) (items.forM f) s := by
  induction items with
  | nil => exact fun s => return_nil
  | cons i rest ih => exact fun s => (h i s).andThen fun _ t _ => ih t

/-- Statements one behind the other are followed up to the first that asks for something. -/
theorem sequence {body : Exec σ Flow}
    (h : ∀ s, Follows m s.position [.statement] (· = .normal) body s) (n : Nat) :
    ∀ s, Follows m s.position [.nodes .statement n] (· = .normal) (Exec.sequence body n) s := by
  induction n with
  | zero => exact fun s => Follows.pure fun _ => passes_nodes_zero.2 rfl
  | succ n ih =>
    intro s
    rw [Exec.sequence_succ]
    refine nodes_succ ((h s).bind (fun flow t _ hflow => ?_) fun flow t _ hflow => ?_)
    · rw [hflow]
      exact ih t
    · cases flow with
      | normal => exact absurd rfl hflow
      | breakLoop => exact .pure hflow
      | returnValue value => exact .pure hflow

/-- Turns that each begin at the same offset are followed by the last one. -/
theorem iterate {turn : Exec σ (Option α)}
    (h : ∀ s, Follows m p fields (∃ a, good a ∧ · = some a) turn s) (n : Nat) :
    ∀ s, Follows m p fields good (Exec.iterate turn n) s := by
  induction n with
  | zero =>
    intro s
    rw [Follows]
    exact ⟨id, fun _ hstop => hstop.elim⟩
  | succ n ih =>
    intro s
    have hturn := h s
    rw [Exec.iterate_succ]
    rw [Follows] at hturn
    cases hs : turn s with
    | error stop t =>
      rw [hs] at hturn
      rw [Follows, bind_of_error hs]
      exact hturn
    | ok next t =>
      rw [hs] at hturn
      refine of_ok hs hturn.1 ?_
      cases next with
      | none => exact ih t
      | some a => exact pure fun ha => hturn.2 ⟨a, ha, rfl⟩

end Follows

end Bytewalk
