import Bytewalk.Proofs.Machine.Following
import Bytewalk.Proofs.Machine.Operators

/-!
# Expressions follow their layouts

What the machine does with an expression or a call follows the layout of its opcode, given
executions for the parts inside that follow a statement and an expression.
-/

namespace Bytewalk.Machine

variable {σ : Type} {m : Setup σ} {s : State σ}

/-! ## Elementary executions

They read no bytes, and they fail for other reasons than the form of the image. -/

/-- Failing for another reason than the form of the image follows anything. -/
theorem follows_fail {α : Type} {p : Nat} {fields : List Field} {good : α → Prop} {cause : Cause}
    (h : ¬ cause.IsStructural) : Follows m p fields good (Exec.fail cause) s :=
  (Strays.fail h).follows

/-- Reading a cell follows no fields. -/
theorem follows_read (cell : CellId) :
    Follows m s.position [] (fun _ => True) (Exec.read cell) s :=
  .of_still (Exec.read_eq s cell) rfl id

/-- The value of an operand is found without reading bytes. -/
theorem follows_valueOf (operand : Operand) :
    Follows m s.position [] (fun _ => True) (Exec.valueOf operand) s := by
  cases operand with
  | value v => exact .return_nil
  | cell cell => exact .of_still (Exec.valueOf_cell s cell) rfl id

/-- What an operand stands for is found without reading bytes. -/
theorem follows_bindingOf (operand : Operand) :
    Follows m s.position [] (fun _ => True) (Exec.bindingOf operand) s := by
  cases operand with
  | value v => exact .return_nil
  | cell cell => exact follows_read cell

/-- A symbol is resolved without reading bytes. -/
theorem follows_resolve (name : Symbol) :
    Follows m s.position [] (fun _ => True) (Exec.resolve m.program.names name) s := by
  cases h : s.store.lookup? s.scope name with
  | some cell => exact .of_still (Exec.resolve_of_some s h) rfl id
  | none => exact .of_failed (Exec.resolve_of_none s h) id fun _ => id

/-- A symbol is bound without reading bytes. -/
theorem follows_bindIn (scope : Scope) (name : Symbol) {binding : Binding σ}
    (hbody : ∀ f, binding = .function f →
      Sound m s.store → ∃ q, Passes m.program.image [.statement] f.body q)
    (hhost : ∀ n f, binding = .host n f → Sound m s.store → f ∈ m.hosts.functions) :
    Follows m s.position [] (fun _ => True)
      (Exec.bindIn m.program.names scope name binding) s := by
  by_cases hbound : s.store.bindsLocally scope name
  · have hfails : Exec.bindIn m.program.names scope name binding s =
        .error (.failed (.of (.duplicateSymbol (m.program.names.display name)))) s := by
      rw [Exec.bindIn, if_pos hbound, Exec.fail_eq]
    exact .of_failed hfails id fun _ => id
  · have hbinds : Exec.bindIn m.program.names scope name binding s =
        .ok () { s with store := (s.store.bind scope name binding).2 } := by
      rw [Exec.bindIn, if_neg hbound]
    refine .of_still hbinds rfl fun hsound => ?_
    exact hsound.bind scope name (fun f hf => hbody f hf hsound) fun n f hf => hhost n f hf hsound

/-- A result that is missing over a type is missing for another reason than the form of the
image. -/
theorem follows_lift {α : Type} {result : Except Error α}
    (h : ∀ e, result = .error e → e.IsOverTypes) :
    Follows m s.position [] (fun _ => True) (Exec.lift result) s := by
  cases result with
  | ok a => exact .return_nil
  | error e =>
    refine .of_failed rfl id fun _ hstop => ?_
    have hcategory := (h e rfl).category_eq
    rw [hstop.category_eq] at hcategory
    cases hcategory

/-! ## Expressions -/

section Expressions

variable {evaluate : Exec σ Operand}
  (heval : ∀ s : State σ, Follows m s.position [.expression] (fun _ => True) evaluate s)

include heval

/-- The value of an expression follows the expression. -/
theorem follows_evaluateValue (s : State σ) :
    Follows m s.position [.expression] (fun _ => True) (evaluateValue evaluate) s :=
  (heval s).andThen fun operand _ _ => follows_valueOf operand

/-- The value of an optional expression follows the optional expression. -/
theorem follows_evaluateOptional (s : State σ) :
    Follows m s.position [.optional .expression] (fun _ => True) (evaluateOptional m evaluate) s :=
  .optional (follows_evaluateValue heval s) (.pure fun _ => passes_nil.2 rfl)

omit heval in
/-- The module of an operand is found without reading bytes. -/
theorem follows_moduleOf (operand : Operand) :
    Follows m s.position [] (fun _ => True) (moduleOf operand) s := by
  cases operand with
  | value v => exact follows_fail id
  | cell cell =>
    refine (follows_read cell).andThen fun binding t _ => ?_
    cases binding with
    | module info => exact .return_nil
    | _ => exact follows_fail id

/-- A unary operator and its operand follow their fields. -/
theorem follows_unary (s : State σ) :
    Follows m s.position [.raw 1, .expression] (fun _ => True) (unary m evaluate) s := by
  refine Follows.byte.andThen fun byte t _ => ?_
  cases UnaryOp.ofByte? byte with
  | none => exact follows_fail (by simp [Cause.IsStructural])
  | some op =>
    exact (follows_evaluateValue heval t).andThen fun v _ _ =>
      follows_lift fun _ => isOverTypes_of_unary

/-- A binary operator and its operands follow their fields. -/
theorem follows_binary (s : State σ) :
    Follows m s.position [.raw 1, .expression, .expression] (fun _ => True)
      (binary m evaluate) s := by
  refine Follows.byte.andThen fun byte t _ => ?_
  cases BinaryOp.ofByte? byte with
  | none => exact follows_fail (by simp [Cause.IsStructural])
  | some op =>
    refine (heval t).andThen fun left u _ => (heval u).andThen fun right v _ => ?_
    -- Once both operands are evaluated no byte is read any more.
    have happly : ∀ w : State σ, Follows m w.position [] (fun _ => True) (do
        let a ← Exec.valueOf left
        let b ← Exec.valueOf right
        Exec.lift (op.apply a b)) w :=
      fun w => (follows_valueOf left).andThen fun a _ _ =>
        (follows_valueOf right).andThen fun b _ _ => follows_lift fun _ => isOverTypes_of_binary
    dsimp only
    split
    · exact (follows_moduleOf left).andThen fun _ w _ => happly w
    · exact happly v

/-- An expression in a module follows its fields. -/
theorem follows_accessor (s : State σ) :
    Follows m s.position [.expression, .expression] (fun _ => True) (accessor evaluate) s := by
  refine (heval s).andThen fun operand t _ => (follows_moduleOf operand).andThen fun info u _ => ?_
  exact .inScope (heval { u with scope := info.scope })

/-- The expression at the position follows an expression, given a call that follows its fields. -/
theorem follows_expression {call : Exec σ Value}
    (hcall : ∀ s : State σ,
      Follows m s.position [.symbol, .counted .expression] (fun _ => True) call s) (s : State σ) :
    Follows m s.position [.expression] (fun _ => True) (expression m evaluate call) s := by
  refine .node (fun byte hbyte => ?_) fun byte fields hbyte t => ?_
  -- A byte has a layout if and only if it is an opcode.
  · cases hop : ExpressionOp.ofByte? byte with
    | none => exact ⟨_, rfl⟩
    | some op => simp [Node.layout?, hop] at hbyte
  · cases hop : ExpressionOp.ofByte? byte with
    | none => simp [Node.layout?, hop] at hbyte
    | some op =>
      simp only [Node.layout?, hop, Option.map_some, Option.some.injEq] at hbyte
      subst hbyte
      cases op with
      | unary => exact (follows_unary heval t).andThen fun _ _ _ => .return_nil
      | binary => exact (follows_binary heval t).andThen fun _ _ _ => .return_nil
      | group => exact heval t
      | literal => exact Follows.literal.andThen fun _ _ _ => .return_nil
      | «variable» =>
        exact Follows.symbol.andThen fun name _ _ =>
          (follows_resolve name).andThen fun _ _ _ => .return_nil
      | call => exact (hcall t).andThen fun _ _ _ => .return_nil
      | accessor => exact follows_accessor heval t

end Expressions

/-! ## Calls -/

section Calls

variable {execute : Exec σ Flow}
  (hexec : ∀ s : State σ, Follows m s.position [.statement] (· = .normal) execute s)

/-- A frame is opened without reading bytes. -/
theorem follows_openFrame (f : Function) (args : List Value) :
    Follows m s.position [] (fun _ => True) (openFrame m f args) s := by
  have hbinds : ∀ scope (t : State σ),
      Follows m t.position [] (fun _ => True) (bindArguments m f args scope) t := by
    intro scope t
    refine (Follows.forM (fun i u => ?_) t).andThen fun _ _ _ => .return_nil
    exact follows_bindIn scope i.1 (fun _ h => nomatch h) fun _ _ h => nomatch h
  exact (hbinds _ { s with store := (s.store.newChild f.closure).2 }).of_eq
    (openFrame_eq m f args s) fun h => h.newChild f.closure

include hexec in
/-- The body of a function is executed without moving the position, if it can be passed over. -/
theorem follows_enter (f : Function) (frame : Scope)
    (hbody : Sound m s.store → ∃ q, Passes m.program.image [.statement] f.body q) :
    Follows m s.position [] (fun _ => True) (enter m execute f frame) s := by
  refine .mapError (fun _ => rfl) ?_
  have hcall : Follows m s.position [] (fun _ => True)
      (Exec.inCall f.body frame f.name.parent execute) s := by
    -- The body follows a statement at its own offset, and the caller follows nothing.
    have h := hexec { s with
      position := f.body, scope := frame, modules := f.name.parent, depth := s.depth + 1 }
    rw [Follows] at h ⊢
    rw [Exec.inCall]
    cases hrun : execute { s with
        position := f.body, scope := frame, modules := f.name.parent, depth := s.depth + 1 } with
    | ok flow t =>
      rw [hrun] at h
      exact ⟨h.1, fun _ => passes_nil.2 rfl⟩
    | error stop t =>
      rw [hrun] at h
      refine ⟨h.1, fun hsound hstop => ?_⟩
      obtain ⟨q, hpass⟩ := hbody hsound
      exact absurd hpass (h.2 hsound hstop q)
  refine hcall.andThen fun flow t _ => ?_
  cases flow with
  | normal => exact .return_nil
  | breakLoop => exact follows_fail id
  | returnValue value => exact .return_nil

/-- The caller goes on where it was. -/
theorem position_of_enter {execute : Exec σ Flow} {f : Function} {frame : Scope} {v : Value}
    {s t : State σ} (h : enter m execute f frame s = .ok v t) : t.position = s.position := by
  rw [enter, Exec.mapError] at h
  split at h
  · cases h
  · obtain ⟨flow, u, hcall, hflow⟩ := eq_ok_of_bind h
    have hu : u.position = s.position := by
      rw [Exec.inCall] at hcall
      split at hcall <;> cases hcall
      rfl
    cases flow <;> cases hflow <;> exact hu

include hexec in
/-- A function of the program is called without moving the position, if its body can be passed
over. -/
theorem follows_invoke (f : Function) (args : List Value)
    (hbody : Sound m s.store → ∃ q, Passes m.program.image [.statement] f.body q) :
    Follows m s.position [] (fun _ => True) (invoke m execute f args) s := by
  by_cases hlength : args.length = f.params.length
  · rcases Nat.lt_or_ge s.depth m.config.maxCallDepth with hdepth | hdepth
    · refine Follows.of_eq ?_ (invoke_of_depth_lt hlength hdepth) id
      by_cases hpasses : ∃ q, Passes m.program.image [.statement] f.body q
      · exact (follows_openFrame f args).andThen fun frame t _ =>
          follows_enter hexec f frame fun _ => hpasses
      -- Whether the body can be passed over is known only where the store is sound.
      · refine .of_unsound (fun h => hpasses (hbody h)) fun v t hrun => ?_
        obtain ⟨frame, u, hopen, henter⟩ := eq_ok_of_bind hrun
        have hu := follows_openFrame (m := m) (s := s) f args
        rw [Follows, hopen] at hu
        rw [passes_nil, position_of_enter henter]
        exact passes_nil.1 (hu.2 trivial)
    · exact .of_failed (invoke_of_depth_le hlength hdepth) id fun _ => id
  · exact .of_failed (invoke_of_length_ne hlength) id fun _ => id

/-- A host function is called without reading bytes. -/
theorem follows_callHost (f : HostFunction σ) (args : List Value)
    (hhost : Sound m s.store → f ∈ m.hosts.functions) :
    Follows m s.position [] (fun _ => True) (callHost f args) s := by
  by_cases haccepts : f.arity.accepts args.length
  · rcases h : f.action args s.host with ⟨result, after⟩
    cases result with
    | ok v =>
      have hcall : callHost f args s = .ok v { s with host := after } := by
        simp [callHost, HostFunction.call, haccepts, h]
      exact .of_still hcall rfl id
    | error e =>
      have hcall : callHost f args s = .error (.failed e) { s with host := after } := by
        simp [callHost, HostFunction.call, haccepts, h]
      rw [Follows, hcall]
      -- A registered function has made the failure up, so that it says nothing about the image.
      refine ⟨id, fun hsound hstop => absurd ?_ (hstop.2 f (hhost hsound))⟩
      exact ⟨args, s.host, e, after, h, rfl⟩
  · exact .of_failed (by simp [callHost, HostFunction.call, haccepts]; rfl) id fun _ => id

include hexec in
/-- A call follows its symbol and its arguments. -/
theorem follows_call {evaluate : Exec σ Operand}
    (heval : ∀ s : State σ, Follows m s.position [.expression] (fun _ => True) evaluate s)
    (s : State σ) :
    Follows m s.position [.symbol, .counted .expression] (fun _ => True)
      (call m execute evaluate) s := by
  refine Follows.symbol.andThen fun callee t _ => .counted fun number q => ?_
  refine (Follows.collect (follows_evaluateValue heval) number { t with position := q }).andThen
    fun args u _ => ?_
  refine (follows_resolve callee).andThen fun cell v _ => ?_
  refine (follows_read cell).andThen fun binding w hread => ?_
  -- Reading has not changed the state, so that the store is asked where it is sound.
  cases hread
  cases hcell : v.store.read? cell with
  | none => exact follows_fail id
  | some binding =>
    cases binding with
    | function f => exact follows_invoke hexec f args fun h => h.bodies cell f hcell
    | host name f => exact follows_callHost f args fun h => h.imported cell name f hcell
    | _ => exact follows_fail id

end Calls

end Bytewalk.Machine
