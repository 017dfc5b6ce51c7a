import Bytewalk.Machine.Run
import Bytewalk.Proofs.Code.Literal
import Bytewalk.Proofs.Machine.Equations

/-!
# Termination

Where the number of statements is limited, `Setup.steps` suffices: no run is exhausted. Every
statement counts against the limit, and so does every turn of a loop, whose body is a statement.
Between two statements only expressions nest, and an expression begins further along in the image
than the one around it, or its first byte lies past the end and begins nothing.

`Within` says how many statements have been counted at least and how far along the position is at
least. `Leads` is what the proof carries from part to part.
-/

namespace Bytewalk

variable {σ α β : Type}

/-! ## Bounds -/

/-- At least `least` statements have been counted, at most `limit`, and the position is at least
`p`. -/
structure Within (limit least p : Nat) (s : State σ) : Prop where
  /-- So many statements have been counted. -/
  least_le : least ≤ s.executed
  /-- The limit has not been exceeded. -/
  le_limit : s.executed ≤ limit
  /-- So far along is the position. -/
  le_position : p ≤ s.position

theorem Within.mono {limit least least' p p' : Nat} {s : State σ} (hs : Within limit least p s)
    (hleast : least' ≤ least) (hp : p' ≤ p) : Within limit least' p' s :=
  ⟨Nat.le_trans hleast hs.least_le, hs.le_limit, Nat.le_trans hp hs.le_position⟩

theorem Within.least_le_limit {limit least p : Nat} {s : State σ} (hs : Within limit least p s) :
    least ≤ limit :=
  Nat.le_trans hs.least_le hs.le_limit

/-- From every state with the property `I` the execution yields a result and a state related by
`J`, or fails; it is not exhausted. -/
@[irreducible]
def Leads (I : State σ → Prop) (J : α → State σ → Prop) (x : Exec σ α) : Prop :=
  ∀ s, I s →
    match x s with
    | .ok a t => J a t
    | .error stop _ => stop ≠ .exhausted

/-- The execution keeps to the same bounds. -/
abbrev Stays (limit least p : Nat) (x : Exec σ α) : Prop :=
  Leads (Within limit least p) (fun _ => Within limit least p) x

namespace Leads

variable {I I' : State σ → Prop} {J J' : α → State σ → Prop} {L : β → State σ → Prop}
  {x : Exec σ α} {k : α → Exec σ β}

theorem pure {a : α} (h : ∀ s, I s → J a s) : Leads I J (Pure.pure a) := by
  rw [Leads]
  exact h

theorem done (a : α) : Leads I (fun _ => I) (Pure.pure a) :=
  pure fun _ hs => hs

theorem fail {cause : Cause} : Leads I J (Exec.fail cause) := by
  rw [Leads]
  exact fun s _ => Stop.noConfusion

/-- From no state. -/
theorem nowhere (h : ∀ s, ¬ I s) : Leads I J x := by
  rw [Leads]
  exact fun s hs => (h s hs).elim

theorem bind (hx : Leads I J x) (hk : ∀ a, Leads (J a) L (k a)) : Leads I L (x >>= k) := by
  rw [Leads] at hx ⊢
  intro s hs
  have hfirst := hx s hs
  cases hxs : x s with
  | ok a t =>
    rw [hxs] at hfirst
    have hrest := hk a
    rw [Leads] at hrest
    rw [bind_of_ok hxs]
    exact hrest t hfirst
  | error stop t =>
    rw [hxs] at hfirst
    rw [bind_of_error hxs]
    exact hfirst

/-- Less may be asked before and more promised after. -/
theorem mono (hx : Leads I J x) (hI : ∀ s, I' s → I s) (hJ : ∀ a s, J a s → J' a s) :
    Leads I' J' x := by
  rw [Leads] at hx ⊢
  intro s hs
  have hrun := hx s (hI s hs)
  cases hxs : x s with
  | ok a t =>
    rw [hxs] at hrun
    exact hJ a t hrun
  | error stop t =>
    rw [hxs] at hrun
    exact hrun

/-- It may be forgotten that a statement has been counted. -/
theorem forget {limit least p : Nat} (hx : Leads I (fun _ => Within limit (least + 1) p) x) :
    Leads I (fun _ => Within limit least p) x :=
  hx.mono (fun _ => id) fun _ _ ht => ht.mono (Nat.le_succ least) (Nat.le_refl p)

/-- More statements cannot have been counted than may be. -/
theorem beyond {limit least p : Nat} (h : limit ≤ least) :
    Leads (Within limit (least + 1) p) J x :=
  nowhere fun _ hs => Nat.not_le.2 (Nat.lt_succ_of_le h) hs.least_le_limit

theorem mapError {f : Error → Error} (h : Leads I J x) : Leads I J (Exec.mapError f x) := by
  rw [Leads] at h ⊢
  intro s hs
  have hrun := h s hs
  rw [Exec.mapError]
  cases hxs : x s with
  | ok a t =>
    rw [hxs] at hrun
    exact hrun
  | error stop t =>
    rw [hxs] at hrun
    cases stop with
    | failed e => exact Stop.noConfusion
    | exhausted => exact absurd rfl hrun

end Leads

/-! ## Elementary executions -/

namespace Leads

variable {x : Exec σ α} {limit least p : Nat}

/-- An execution that yields a result from every state, counts nothing and stays where it is. -/
theorem of_ok {a : State σ → α} {t : State σ → State σ} (h : ∀ s, x s = .ok (a s) (t s))
    (hexecuted : ∀ s, (t s).executed = s.executed) (hposition : ∀ s, (t s).position = s.position) :
    Stays limit least p x := by
  rw [Stays, Leads]
  intro s hs
  rw [h s]
  exact ⟨hexecuted s ▸ hs.least_le, hexecuted s ▸ hs.le_limit, hposition s ▸ hs.le_position⟩

/-- A decoder counts nothing, and the position stays behind `p` if the decoder goes forward. -/
theorem decode {decoder : Decoder α} (h : ∀ {a q r}, decoder q = .ok a r → q ≤ r) :
    Stays limit least p (Exec.decode decoder : Exec σ α) := by
  rw [Stays, Leads]
  intro s hs
  cases hdecode : decoder s.position with
  | ok a r =>
    rw [Exec.decode_of_ok s hdecode]
    exact ⟨hs.least_le, hs.le_limit, Nat.le_trans hs.le_position (h hdecode)⟩
  | error e r =>
    rw [Exec.decode_of_error s hdecode]
    exact Stop.noConfusion

theorem lift (result : Except Error α) :
    Stays limit least p (Exec.lift result : Exec σ α) := by
  cases result with
  | ok a => exact done a
  | error e =>
    rw [Stays, Leads]
    exact fun s _ => Stop.noConfusion

theorem read (cell : CellId) : Stays limit least p (Exec.read cell : Exec σ (Binding σ)) :=
  of_ok (fun s => Exec.read_eq s cell) (fun _ => rfl) fun _ => rfl

theorem resolve (names : NameTable) (name : Symbol) :
    Stays limit least p (Exec.resolve names name : Exec σ CellId) := by
  rw [Stays, Leads]
  intro s hs
  cases h : s.store.lookup? s.scope name with
  | some cell =>
    rw [Exec.resolve_of_some s h]
    exact hs
  | none =>
    rw [Exec.resolve_of_none s h]
    exact Stop.noConfusion

theorem bindIn (names : NameTable) (scope : Scope) (name : Symbol) (binding : Binding σ) :
    Stays limit least p (Exec.bindIn names scope name binding) := by
  rw [Stays, Leads]
  intro s hs
  rw [Exec.bindIn]
  by_cases hbound : s.store.bindsLocally scope name
  · rw [if_pos hbound]
    exact Stop.noConfusion
  · rw [if_neg hbound]
    exact ⟨hs.least_le, hs.le_limit, hs.le_position⟩

theorem bindHere (names : NameTable) (name : Symbol) (binding : Binding σ) :
    Stays limit least p (Exec.bindHere names name binding) := by
  rw [Stays, Leads]
  intro s
  have h := @bindIn σ limit least p names s.scope name binding
  rw [Stays, Leads] at h
  exact h s

theorem valueOf (operand : Operand) :
    Stays limit least p (Exec.valueOf operand : Exec σ Value) := by
  cases operand with
  | value v => exact done v
  | cell cell => exact (read cell).bind fun _ => done _

theorem bindingOf (operand : Operand) :
    Stays limit least p (Exec.bindingOf operand : Exec σ (Binding σ)) := by
  cases operand with
  | value v => exact done _
  | cell cell => exact read cell

theorem moduleOf (operand : Operand) :
    Stays limit least p (Machine.moduleOf operand : Exec σ ModuleInfo) := by
  cases operand with
  | value v => exact .fail
  | cell cell =>
    refine (read cell).bind fun binding => ?_
    cases binding with
    | module info => exact done info
    | _ => exact .fail

/-! ## Composed executions -/

theorem inScope {scope : Scope} (h : Stays limit least p x) :
    Stays limit least p (Exec.inScope scope x) := by
  rw [Stays, Leads] at h ⊢
  intro s hs
  have hrun := h { s with scope } ⟨hs.least_le, hs.le_limit, hs.le_position⟩
  rw [Exec.inScope]
  cases hxs : x { s with scope } with
  | ok a t =>
    rw [hxs] at hrun
    exact ⟨hrun.least_le, hrun.le_limit, hrun.le_position⟩
  | error stop t =>
    rw [hxs] at hrun
    exact hrun

theorem inModule {name : Symbol} (h : Stays limit least p x) :
    Stays limit least p (Exec.inModule name x) := by
  rw [Stays, Leads] at h ⊢
  intro s hs
  have hrun := h { s with modules := s.modules ++ [name] }
    ⟨hs.least_le, hs.le_limit, hs.le_position⟩
  rw [Exec.inModule]
  cases hxs : x { s with modules := s.modules ++ [name] } with
  | ok a t =>
    rw [hxs] at hrun
    exact ⟨hrun.least_le, hrun.le_limit, hrun.le_position⟩
  | error stop t =>
    rw [hxs] at hrun
    exact hrun

/-- The body of a call begins anywhere, but the caller goes on where it was. -/
theorem inCall {entry : Nat} {scope : Scope} {modules : List Symbol} (h : Stays limit least 0 x) :
    Stays limit least p (Exec.inCall entry scope modules x) := by
  rw [Stays, Leads] at h ⊢
  intro s hs
  have hrun := h { s with position := entry, scope, modules, depth := s.depth + 1 }
    ⟨hs.least_le, hs.le_limit, Nat.zero_le _⟩
  rw [Exec.inCall]
  cases hxs : x { s with position := entry, scope, modules, depth := s.depth + 1 } with
  | ok a t =>
    rw [hxs] at hrun
    exact ⟨hrun.least_le, hrun.le_limit, hs.le_position⟩
  | error stop t =>
    rw [hxs] at hrun
    exact hrun

theorem collect (h : Stays limit least p x) (n : Nat) :
    Stays limit least p (Exec.collect x n) := by
  induction n with
  | zero => exact done _
  | succ n ih => exact h.bind fun _ => ih.bind fun _ => done _

theorem forM {ι : Type} {f : ι → Exec σ PUnit} (h : ∀ i, Stays limit least p (f i))
    (items : List ι) : Stays limit least p (items.forM f) := by
  induction items with
  | nil => exact done _
  | cons i rest ih => exact (h i).bind fun _ => ih

end Leads

/-! ## Expressions -/

namespace Machine

open Decoder

variable {m : Setup σ} {limit least p : Nat}

section Parts

variable {execute : Exec σ Flow} {evaluate : Exec σ Operand} {image : Image}

theorem stays_byte : Stays limit least p (Exec.decode (byte image) : Exec σ UInt8) :=
  .decode fun {_ q _} h => by cases h; exact Nat.le_succ q

theorem stays_symbol : Stays limit least p (Exec.decode (symbol image) : Exec σ Symbol) :=
  .decode fun {_ q _} h => by cases h; exact Nat.le_add_right q 4

theorem stays_count (width : Nat) :
    Stays limit least p (Exec.decode (count image width) : Exec σ Nat) :=
  .decode Traversal.le_of_count

theorem stays_present : Stays limit least p (Exec.decode (present image) : Exec σ Bool) := by
  refine .decode fun {_ q _} h => ?_
  rw [present] at h
  split at h <;> cases h
  · exact Nat.le_succ q
  · exact Nat.le_refl q

theorem stays_literal : Stays limit least p (Exec.decode (literal image) : Exec σ Value) := by
  refine .decode fun {v q r} h => @Traversal.le_of_passLiteral image q r ?_
  rw [passLiteral_eq, bind_of_ok h]
  rfl

section Expression

variable (hexecute : Stays limit least 0 execute) (hevaluate : Stays limit least p evaluate)
include hevaluate

theorem stays_evaluateValue : Stays limit least p (evaluateValue evaluate) :=
  hevaluate.bind fun _ => .valueOf _

theorem stays_evaluateOptional : Stays limit least p (evaluateOptional m evaluate) := by
  refine stays_present.bind fun there => ?_
  cases there with
  | false => exact .done _
  | true => exact stays_evaluateValue hevaluate

theorem stays_unary : Stays limit least p (unary m evaluate) := by
  refine stays_byte.bind fun code => ?_
  cases UnaryOp.ofByte? code with
  | none => exact .fail
  | some op => exact (stays_evaluateValue hevaluate).bind fun _ => .lift _

theorem stays_binary : Stays limit least p (binary m evaluate) := by
  refine stays_byte.bind fun code => ?_
  cases BinaryOp.ofByte? code with
  | none => exact .fail
  | some op =>
    refine hevaluate.bind fun left => hevaluate.bind fun right => ?_
    have hvalues : Stays limit least p (do
        let a ← Exec.valueOf left
        let b ← Exec.valueOf right
        Exec.lift (op.apply a b) : Exec σ Value) :=
      (Leads.valueOf _).bind fun _ => (Leads.valueOf _).bind fun _ => .lift _
    by_cases hmember : op = .member
    · rw [if_pos hmember]
      exact (Leads.moduleOf _).bind fun _ => hvalues
    · rw [if_neg hmember]
      exact hvalues

theorem stays_accessor : Stays limit least p (accessor evaluate) :=
  hevaluate.bind fun _ => (Leads.moduleOf _).bind fun _ => .inScope hevaluate

omit hevaluate in
theorem stays_openFrame (f : Function) (args : List Value) :
    Stays limit least p (openFrame m f args) := by
  have hbinds : ∀ frame, Stays limit least p (bindArguments m f args frame) := fun frame =>
    (Leads.forM (fun _ => .bindIn _ _ _ _) _).bind fun _ => .done _
  -- The frame is only known once there is a state.
  rw [Stays, Leads]
  intro s hs
  have h := hbinds (s.store.newChild f.closure).1
  rw [Stays, Leads] at h
  rw [openFrame_eq]
  exact h { s with store := (s.store.newChild f.closure).2 }
    ⟨hs.least_le, hs.le_limit, hs.le_position⟩

omit hevaluate in
include hexecute in
theorem stays_invoke (f : Function) (args : List Value) :
    Stays limit least p (invoke m execute f args) := by
  have hbody : Stays limit least p (openFrame m f args >>= enter m execute f) := by
    refine (stays_openFrame f args).bind fun frame => .mapError ?_
    refine hexecute.inCall.bind fun flow => ?_
    cases flow with
    | normal => exact .done _
    | breakLoop => exact .fail
    | returnValue value => exact .done value
  rw [Stays, Leads] at hbody ⊢
  intro s hs
  by_cases hlength : args.length = f.params.length
  · rcases Nat.lt_or_ge s.depth m.config.maxCallDepth with hdepth | hdepth
    · rw [invoke_of_depth_lt hlength hdepth]
      exact hbody s hs
    · rw [invoke_of_depth_le hlength hdepth]
      exact Stop.noConfusion
  · rw [invoke_of_length_ne hlength]
    exact Stop.noConfusion

omit hevaluate in
theorem stays_callHost (f : HostFunction σ) (args : List Value) :
    Stays limit least p (callHost f args) := by
  rw [Stays, Leads]
  intro s hs
  rw [callHost]
  obtain ⟨result, host⟩ := f.call args s.host
  cases result with
  | ok value => exact ⟨hs.least_le, hs.le_limit, hs.le_position⟩
  | error e => exact Stop.noConfusion

include hexecute in
theorem stays_call : Stays limit least p (call m execute evaluate) := by
  refine stays_symbol.bind fun callee => (stays_count 1).bind fun number => ?_
  refine ((stays_evaluateValue hevaluate).collect number).bind fun args => ?_
  refine (Leads.resolve _ _).bind fun cell => (Leads.read _).bind fun binding => ?_
  cases binding with
  | function f => exact stays_invoke hexecute f args
  | host _ f => exact stays_callHost f args
  | _ => exact .fail

omit hevaluate in
/-- Past the end of the image no byte but zero is read. -/
theorem leads_byte :
    Leads (Within limit least p)
      (fun code s => code ≠ 0 → p < image.size ∧ Within limit least (p + 1) s)
      (Exec.decode (byte image) : Exec σ UInt8) := by
  rw [Leads]
  intro s hs
  have hbyte : Exec.decode (byte image) s =
      .ok (image.byteAt s.position) { s with position := s.position + 1 } :=
    Exec.decode_of_ok s rfl
  rw [hbyte]
  intro hcode
  exact ⟨Nat.lt_of_le_of_lt hs.le_position (Image.lt_size_of_byteAt_ne_zero hcode),
    hs.least_le, hs.le_limit, Nat.succ_le_succ hs.le_position⟩

omit hevaluate in
include hexecute in
/-- An expression inside begins behind the first byte, unless this byte lies past the end. -/
theorem stays_expression
    (hevaluate : p < m.program.image.size → Stays limit least (p + 1) evaluate) :
    Stays limit least p (expression m evaluate (call m execute evaluate)) := by
  refine leads_byte.bind fun code => ?_
  by_cases hcode : code = 0
  · -- Zero begins no expression.
    subst hcode
    exact .fail
  by_cases hp : p < m.program.image.size
  · -- The byte that has been read moves the bound, which every part inside keeps.
    have hinner := hevaluate hp
    refine Leads.mono (?_ : Stays limit least (p + 1) _) (fun s hs => (hs hcode).2)
      fun _ _ ht => ht.mono (Nat.le_refl least) (Nat.le_succ p)
    cases ExpressionOp.ofByte? code with
    | none => exact .fail
    | some op =>
      cases op with
      | unary => exact (stays_unary hinner).bind fun _ => .done _
      | binary => exact (stays_binary hinner).bind fun _ => .done _
      | group => exact hinner
      | literal => exact stays_literal.bind fun _ => .done _
      | «variable» =>
        exact stays_symbol.bind fun _ => (Leads.resolve _ _).bind fun _ => .done _
      | call => exact (stays_call hexecute hinner).bind fun _ => .done _
      | accessor => exact stays_accessor hinner
  · -- Only zero is read past the end.
    exact .nowhere fun s hs => hp (hs hcode).1

end Expression

/-! ## Statements

A statement counts, and then the position may be anywhere. -/

theorem stays_decode {decoder : Decoder α} :
    Stays limit least 0 (Exec.decode decoder : Exec σ α) := by
  rw [Stays, Leads]
  intro s hs
  cases hdecode : decoder s.position with
  | ok a r =>
    rw [Exec.decode_of_ok s hdecode]
    exact ⟨hs.least_le, hs.le_limit, Nat.zero_le r⟩
  | error e r =>
    rw [Exec.decode_of_error s hdecode]
    exact Stop.noConfusion

theorem stays_seek (q : Nat) : Stays limit least 0 (Exec.seek q : Exec σ Unit) := by
  rw [Stays, Leads]
  exact fun s hs => ⟨hs.least_le, hs.le_limit, Nat.zero_le q⟩

theorem stays_openScope : Stays limit least p (Exec.openScope : Exec σ Scope) :=
  .of_ok Exec.openScope_eq (fun _ => rfl) fun _ => rfl

theorem stays_position : Stays limit least p (Exec.position : Exec σ Nat) :=
  .of_ok Exec.position_eq (fun _ => rfl) fun _ => rfl

theorem stays_qualify (name : Symbol) :
    Stays limit least p (Exec.qualify name : Exec σ QualifiedName) :=
  .of_ok (fun s => Exec.qualify_eq s name) (fun _ => rfl) fun _ => rfl

/-- Counting leads on, or fails where the limit has been reached. -/
theorem leads_countStatement (hfuel : m.config.fuel = some limit) :
    Leads (Within limit least p) (fun _ => Within limit (least + 1) 0) (countStatement m) := by
  rw [Leads]
  intro s hs
  rcases countStatement_cases m s with hlt | ⟨limit', hlimit', hle⟩
  · rw [countStatement_of_lt hlt]
    exact ⟨Nat.succ_le_succ hs.least_le, hlt limit hfuel, Nat.zero_le _⟩
  · rw [countStatement_of_le hlimit' hle]
    exact Stop.noConfusion

section Statement

/-- Statements count, and expressions do not, however many statements have been counted. -/
structure Counts (limit least : Nat) (execute : Exec σ Flow) (evaluate : Exec σ Operand) :
    Prop where
  execute : ∀ e, least ≤ e →
    Leads (Within limit e 0) (fun _ => Within limit (e + 1) 0) execute
  evaluate : ∀ e, least ≤ e → Stays limit e 0 evaluate

theorem Counts.mono {least' : Nat} (h : Counts limit least execute evaluate)
    (hle : least ≤ least') : Counts limit least' execute evaluate :=
  ⟨fun e he => h.execute e (Nat.le_trans hle he), fun e he => h.evaluate e (Nat.le_trans hle he)⟩

variable (h : Counts limit least execute evaluate)
include h

theorem Counts.stays_execute : Stays limit least 0 execute :=
  (h.execute least (Nat.le_refl least)).forget

theorem Counts.stays_evaluate : Stays limit least 0 evaluate :=
  h.evaluate least (Nat.le_refl least)

theorem stays_executeOptional : Stays limit least 0 (executeOptional m execute) := by
  refine stays_present.bind fun there => ?_
  cases there with
  | false => exact .done _
  | true => exact h.stays_execute

theorem stays_condition : Stays limit least 0 (condition evaluate) :=
  (stays_evaluateValue h.stays_evaluate).bind fun _ => .lift _

theorem stays_sequence (n : Nat) : Stays limit least 0 (Exec.sequence execute n) := by
  induction n with
  | zero => exact .done _
  | succ n ih =>
    rw [Exec.sequence_succ]
    refine h.stays_execute.bind fun flow => ?_
    cases flow with
    | normal => exact ih
    | breakLoop | returnValue => exact .done _

theorem stays_branch : Stays limit least 0 (branch m execute evaluate) := by
  refine (stays_condition h).bind fun holds => ?_
  cases holds with
  | true =>
    refine h.stays_execute.bind fun flow => ?_
    cases flow with
    | normal => exact stays_decode.bind fun _ => .done _
    | breakLoop | returnValue => exact .done _
  | false => exact stays_decode.bind fun _ => stays_executeOptional h

theorem stays_loopStep : Stays limit least 0 (loopStep m execute) := by
  refine stays_position.bind fun start => (stays_executeOptional h).bind fun flow => ?_
  cases flow with
  | breakLoop => exact (stays_seek start).bind fun _ => stays_decode.bind fun _ => .done _
  | normal | returnValue => exact .done _

/-- A turn that does not end the loop has counted its body. -/
theorem leads_loopTurn (start : Nat) :
    Leads (Within limit least 0)
      (fun next => Within limit (if next.isNone then least + 1 else least) 0)
      (loopTurn m execute evaluate start) := by
  have hend : ∀ e flow, least ≤ e → Leads (Within limit e 0)
      (fun next => Within limit (if next.isNone then least + 1 else least) 0)
      (pure (some flow) : Exec σ (Option Flow)) := fun e flow he =>
    .pure fun _ hs => hs.mono he (Nat.le_refl 0)
  refine (stays_seek start).bind fun _ => (stays_condition h).bind fun holds => ?_
  cases holds with
  | true =>
    -- From here on the body has been counted.
    refine stays_position.bind fun body => (h.execute least (Nat.le_refl least)).bind fun flow => ?_
    have hstep := stays_loopStep (m := m) (h.mono (Nat.le_succ least))
    cases flow with
    | normal =>
      refine hstep.bind fun flow => ?_
      cases flow with
      | normal => exact .pure fun _ => id
      | breakLoop | returnValue => exact hend _ _ (Nat.le_succ least)
    | breakLoop =>
      refine (stays_seek body).bind fun _ => stays_decode.bind fun _ => hstep.bind fun flow => ?_
      cases flow with
      | normal | breakLoop | returnValue => exact hend _ _ (Nat.le_succ least)
    | returnValue value => exact hend _ _ (Nat.le_succ least)
  | false =>
    exact stays_decode.bind fun _ => stays_decode.bind fun _ => hend _ _ (Nat.le_refl least)

/-- A loop makes no more turns than statements may be counted. -/
theorem stays_iterate (start : Nat) {turns : Nat} (hturns : limit - least < turns) :
    Stays limit least 0 (Exec.iterate (loopTurn m execute evaluate start) turns) := by
  induction turns generalizing least with
  | zero => exact absurd hturns (Nat.not_lt_zero _)
  | succ turns ih =>
    rw [Exec.iterate_succ]
    refine (leads_loopTurn h start).bind fun next => ?_
    cases next with
    | some flow => exact .done _
    | none =>
      rcases Nat.lt_or_ge least limit with hlt | hge
      · -- The turn has counted its body, so that one turn less suffices for the rest.
        have hrest := ih (h.mono (Nat.le_succ least)) (by omega)
        exact hrest.forget
      · exact .beyond hge

theorem stays_loop {turns : Nat} (hturns : limit - least < turns) :
    Stays limit least 0 (loop m execute evaluate turns) := by
  refine stays_openScope.bind fun scope => .inScope ?_
  refine (stays_executeOptional h).bind fun flow => ?_
  cases flow with
  | normal => exact stays_position.bind fun start => stays_iterate h start hturns
  | breakLoop | returnValue => exact .done _

omit h in
theorem stays_modify {f : State σ → State σ} (hexecuted : ∀ s, (f s).executed = s.executed)
    (hposition : ∀ s, (f s).position = s.position) :
    Stays limit least p (modify f : Exec σ PUnit) :=
  .of_ok (fun _ => rfl) hexecuted hposition

theorem stays_print : Stays limit least 0 (print m evaluate) := by
  refine h.stays_evaluate.bind fun operand => (Leads.bindingOf operand).bind fun binding => ?_
  refine (stays_modify (fun s => ?_) fun s => ?_).bind fun _ => .done _
  · split <;> rfl
  · split <;> rfl

theorem stays_declare : Stays limit least 0 (declare m evaluate) := by
  refine stays_byte.bind fun flag => stays_symbol.bind fun name => ?_
  refine (stays_evaluateOptional h.stays_evaluate).bind fun value => ?_
  exact (Leads.bindHere _ _ _).bind fun _ => .done _

theorem stays_assign : Stays limit least 0 (assign m evaluate) := by
  have hwrite : ∀ cell, Stays limit least 0 (do
      let value ← evaluateValue evaluate
      modify fun s => { s with store := s.store.write cell (.variable false value) }
      return .normal : Exec σ Flow) := by
    intro cell
    refine (stays_evaluateValue h.stays_evaluate).bind fun value => Leads.bind ?_ fun _ => .done _
    exact stays_modify (fun _ => rfl) fun _ => rfl
  refine stays_symbol.bind fun name => (Leads.resolve _ _).bind fun cell => ?_
  refine (Leads.read cell).bind fun binding => ?_
  -- The failures stand in front of the write, which is never reached behind them.
  cases binding with
  | «variable» const value =>
    cases const with
    | true => exact (Leads.fail (J := fun _ => Within limit least 0)).bind fun _ => hwrite cell
    | false => exact hwrite cell
  | _ => exact (Leads.fail (J := fun _ => Within limit least 0)).bind fun _ => hwrite cell

omit h in
theorem stays_declareFunction : Stays limit least 0 (declareFunction m : Exec σ Flow) := by
  refine stays_symbol.bind fun name => (stays_count 4).bind fun number => ?_
  refine stays_openScope.bind fun closure => ?_
  refine (Leads.collect ?_ number).bind fun params => ?_
  · exact stays_symbol.bind fun param => (Leads.bindIn _ _ _ _).bind fun _ => .done _
  · refine stays_position.bind fun body => stays_decode.bind fun _ => ?_
    exact (stays_qualify name).bind fun _ => (Leads.bindHere _ _ _).bind fun _ => .done _

theorem stays_moduleMembers : Stays limit least 0 (moduleMembers m execute) := by
  refine (stays_count 1).bind fun number => (stays_sequence h number).bind fun flow => ?_
  cases flow with
  | normal => exact .done _
  | breakLoop | returnValue => exact .fail

theorem stays_declareModule : Stays limit least 0 (declareModule m execute) := by
  refine stays_symbol.bind fun name => stays_openScope.bind fun scope => ?_
  have hmembers := stays_moduleMembers (m := m) h
  -- Fields and methods are two lists of the same form.
  refine (Leads.inModule (Leads.inScope (hmembers.bind fun _ => hmembers))).bind fun _ => ?_
  exact (stays_qualify name).bind fun _ => (Leads.bindHere _ _ _).bind fun _ => .done _

theorem stays_returnValue : Stays limit least 0 (returnValue m evaluate) :=
  (stays_evaluateOptional h.stays_evaluate).bind fun _ => .done _

theorem stays_block : Stays limit least 0 (block m execute) :=
  (stays_count 1).bind fun number => stays_openScope.bind fun _ =>
    .inScope (stays_sequence h number)

omit h in
theorem stays_declareClass : Stays limit least 0 (declareClass m : Exec σ Flow) := by
  refine stays_symbol.bind fun name => stays_decode.bind fun fields => ?_
  refine stays_decode.bind fun methods => ?_
  refine (Leads.of_ok (fun _ => rfl) (fun _ => rfl) fun _ => rfl).bind fun s => ?_
  exact (stays_qualify name).bind fun _ => (Leads.bindHere _ _ _).bind fun _ => .done _

omit h in
theorem stays_importHost : Stays limit least 0 (importHost m : Exec σ Flow) := by
  have hbind : ∀ source target, Stays limit least 0 (bindHost m source target) := by
    intro source target
    rw [bindHost]
    cases m.program.names.get? source with
    | none => exact .fail
    | some name =>
      dsimp only
      cases m.hosts.get? name with
      | none => exact .fail
      | some f => exact (stays_qualify _).bind fun _ => (Leads.bindHere _ _ _).bind fun _ => .done _
  rw [importHost_eq]
  refine stays_symbol.bind fun source => stays_present.bind fun there => ?_
  cases there with
  | false => exact hbind source source
  | true => exact stays_symbol.bind fun target => hbind source target

theorem stays_statementOf {turns : Nat} (hturns : limit - least < turns) (op : StatementOp) :
    Stays limit least 0 (statementOf m execute evaluate turns op) := by
  cases op with
  | print => exact stays_print h
  | branch => exact stays_branch h
  | block => exact stays_block h
  | declare => exact stays_declare h
  | assign => exact stays_assign h
  | loop => exact stays_loop h hturns
  | breakLoop => exact .done _
  | function => exact stays_declareFunction
  | call => exact (stays_call h.stays_execute h.stays_evaluate).bind fun _ => .done _
  | returnValue => exact stays_returnValue h
  | classDecl => exact stays_declareClass
  | module => exact stays_declareModule h
  | importHost => exact stays_importHost
  | reserved => exact .fail

end Statement

/-- A statement has what it needs, if what is inside has it once the statement has been
counted. -/
theorem leads_statement (hfuel : m.config.fuel = some limit) {turns : Nat}
    (h : least < limit → Counts limit (least + 1) execute evaluate)
    (hturns : least < limit → limit - (least + 1) < turns) :
    Leads (Within limit least 0) (fun _ => Within limit (least + 1) 0)
      (statement m execute evaluate turns) := by
  refine stays_position.bind fun start => .mapError ?_
  refine (leads_countStatement hfuel).bind fun _ => ?_
  rcases Nat.lt_or_ge least limit with hlt | hge
  · refine stays_byte.bind fun code => ?_
    cases StatementOp.ofByte? code with
    | none => exact .fail
    | some op => exact stays_statementOf (h hlt) (hturns hlt) op
  · exact .beyond hge

end Parts

/-! ## Runs -/

variable (m)

/-- How many steps suffice for a statement where so many have been counted. -/
def need (limit least : Nat) : Nat :=
  (limit - least) * (m.program.image.size + 3)

/-- A statement that is counted leaves steps for all that is inside. -/
theorem need_of_lt {e : Nat} (hlt : least < limit) (he : least + 1 ≤ e) :
    need m limit e + m.program.image.size + 3 ≤ need m limit least := by
  have hfewer : limit - e + 1 ≤ limit - least := by omega
  have h := Nat.mul_le_mul_right (m.program.image.size + 3) hfewer
  rw [Nat.succ_mul] at h
  exact h

/-- With steps enough, statements lead on and expressions keep to their bounds. -/
theorem leads_of_need (hfuel : m.config.fuel = some limit) (n : Nat) :
    (∀ e, need m limit e < n →
      Leads (Within limit e 0) (fun _ => Within limit (e + 1) 0) (execute m n)) ∧
    ∀ e p, need m limit e + (m.program.image.size - p) + 1 < n →
      Stays limit e p (evaluate m n) := by
  -- Both halves go by one induction on the steps, since calls execute statements.
  induction n with
  | zero =>
    exact ⟨fun e h => absurd h (Nat.not_lt_zero _), fun e p h => absurd h (Nat.not_lt_zero _)⟩
  | succ n ih =>
    obtain ⟨hexecute, hevaluate⟩ := ih
    constructor
    · intro e hneed
      have hstep : execute m (n + 1) = statement m (execute m n) (evaluate m n) n := by
        funext s
        rw [execute]
      rw [hstep]
      -- Inside a statement the need is smaller by more than all expressions around one another.
      refine leads_statement hfuel (fun hlt => ⟨fun e' he => hexecute e' ?_, fun e' he => ?_⟩) ?_
      · have := need_of_lt m hlt he
        omega
      · have := need_of_lt m hlt he
        exact hevaluate e' 0 (by omega)
      · intro hlt
        have := need_of_lt m hlt (Nat.le_refl (e + 1))
        have hleft : limit - (e + 1) ≤ need m limit (e + 1) := Nat.le_mul_of_pos_right _ (by omega)
        omega
    · intro e p hneed
      have hstep : evaluate m (n + 1) =
          expression m (evaluate m n) (call m (execute m n) (evaluate m n)) := by
        funext s
        rw [evaluate]
      rw [hstep]
      -- A call goes back in the image, but its statements count; any other part begins further on.
      refine stays_expression ?_ fun hp => hevaluate e (p + 1) (by omega)
      exact (hexecute e (by omega)).forget

/-- As many statements are executed as may be counted. -/
theorem stays_topLevel {execute : Exec σ Flow}
    (hexecute : ∀ e, Leads (Within limit e 0) (fun _ => Within limit (e + 1) 0) execute)
    {turns : Nat} (hturns : limit - least < turns) :
    Stays limit least 0 (topLevel m execute turns) := by
  induction turns generalizing least with
  | zero => exact absurd hturns (Nat.not_lt_zero _)
  | succ turns ih =>
    -- The first statement counts, so that the turns left suffice for the others.
    have hfirst := hexecute least
    rw [Leads] at hfirst
    rw [Stays, Leads]
    intro s hs
    have hrun := hfirst s hs
    rw [topLevel]
    by_cases hstart : s.position < m.program.codeEnd
    · rw [if_pos hstart]
      cases hexec : execute s with
      | error stop t =>
        rw [hexec] at hrun
        exact hrun
      | ok flow t =>
        rw [hexec] at hrun
        cases flow with
        | normal =>
          have hcounted := Nat.le_trans hrun.least_le hrun.le_limit
          have hrest := (@ih (least + 1) (by omega)).forget
          rw [Leads] at hrest
          exact hrest t hrun
        | breakLoop | returnValue => exact Stop.noConfusion
    · rw [if_neg hstart]
      exact hs

end Machine

/-- Where the number of statements is limited, no run is exhausted. -/
theorem Setup.runFrom_ne_exhausted (m : Setup σ) {limit : Nat} (hfuel : m.config.fuel = some limit)
    {s : State σ} (hs : s.executed ≤ limit) (t : State σ) :
    m.runFrom m.steps s ≠ .error .exhausted t := by
  have hsteps : m.steps = (limit + 1) * (m.program.image.size + 3) := by
    rw [steps, hfuel]
  have hneed : ∀ e, Machine.need m limit e < m.steps := by
    intro e
    rw [hsteps, Machine.need]
    exact Nat.mul_lt_mul_of_pos_right (by omega) (by omega)
  have hturns : limit - 0 < m.steps := by
    rw [hsteps]
    exact Nat.lt_of_lt_of_le (Nat.lt_succ_self limit) (Nat.le_mul_of_pos_right _ (by omega))
  have hrun : Stays limit 0 0 (Machine.topLevel m (Machine.execute m m.steps) m.steps) :=
    Machine.stays_topLevel m (fun e => (Machine.leads_of_need m hfuel m.steps).1 e (hneed e)) hturns
  rw [Stays, Leads] at hrun
  have hleads := hrun s ⟨Nat.zero_le _, hs, Nat.zero_le _⟩
  intro hexhausted
  rw [runFrom] at hexhausted
  rw [hexhausted] at hleads
  exact hleads rfl

end Bytewalk
