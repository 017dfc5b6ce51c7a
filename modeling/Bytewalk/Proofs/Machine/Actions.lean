import Bytewalk.Proofs.Machine.Acting
import Bytewalk.Proofs.Machine.Moments

/-!
# What statements and expressions do to a store

Given executions for the parts inside of which a statement binds at most one name and an expression
none, the same is true of whole statements and expressions. Calls bind their parameters in a new
frame that is lexical, and a declaration of a function binds placeholders in a new frame that is
reserved from then on.
-/

namespace Bytewalk.Machine

variable {σ : Type} {m : Setup σ} {w : Terms σ} {u : Store (Binding σ)} {s : State σ}

/-! ## Frames of calls -/

/-- Different parameters are bound one after the other. -/
theorem forM_bindIn_of_nodup (names : NameTable) {frame : Scope} (items : List (Symbol × Value)) :
    ∀ {bound : List Symbol} {s : State σ}, s.store.BindsArguments frame.frame bound →
      (bound ++ items.map Prod.fst).Nodup →
      ∃ t, (items.forM fun i => Exec.bindIn names frame i.1 (.variable false i.2)) s = .ok () t ∧
        t.store.BindsArguments frame.frame (bound ++ items.map Prod.fst) := by
  induction items with
  | nil =>
    intro bound s hs _
    exact ⟨s, rfl, by simpa using hs⟩
  | cons i rest ih =>
    intro bound s hs hnodup
    have hfresh : i.1 ∉ bound := by
      have hdisjoint := (List.nodup_append.1 hnodup).2.2
      exact fun hmem => hdisjoint _ hmem i.1 (by simp) rfl
    have hunbound : s.store.local? frame.frame i.1 = none := by
      rw [← Option.not_isSome_iff_eq_none, hs.isSome_iff]
      exact hfresh
    have hbind : Exec.bindIn names frame i.1 (.variable false i.2) s =
        .ok () { s with store := (s.store.bind frame i.1 (.variable false i.2)).2 } := by
      rw [Exec.bindIn, if_neg (by simp [Store.bindsLocally, hunbound])]
    have hassoc : bound ++ (i :: rest).map Prod.fst = (bound ++ [i.1]) ++ rest.map Prod.fst := by
      simp
    rw [hassoc] at hnodup ⊢
    obtain ⟨t, ht, hbinds⟩ := @ih (bound ++ [i.1])
      { s with store := (s.store.bind frame i.1 (.variable false i.2)).2 }
      (hs.bind hunbound _) hnodup
    exact ⟨t, (bind_of_ok hbind).trans ht, hbinds⟩

/-- Parameters are bound in a new frame that is no closure. -/
theorem acts_forM_bindIn {frame : Scope} (hnew : w.old ≤ frame.frame.index)
    (items : List (Symbol × Value)) : ∀ s : State σ, s.Fits w u →
      (w.ordered → s.store.Unreserved frame.frame ∧ frame.frame.index < s.store.frames.size) →
      Acts w ∅
        (items.forM fun i => Exec.bindIn m.program.names frame i.1 (.variable false i.2))
        (items.forM fun i => Exec.bindIn m.program.names frame i.1 (.variable false i.2)) s := by
  induction items with
  | nil => exact fun s hs _ => .still hs (.pure _)
  | cons i rest ih =>
    intro s hs hfree
    refine .andThen hs
      (.bindIn hs _ _ (.inr hnew) (fun hw => (hfree hw).1) (fun _ => trivial) nofun)
      fun _ t _ hleads ht => ih t ht fun hw => ?_
    have hlater := hleads.later hw
    exact ⟨(hfree hw).1.later (hfree hw).2 hlater, Nat.lt_of_lt_of_le (hfree hw).2 hlater.opened⟩

/-- The frame of a call is a new one inside the closure of the function. -/
theorem eq_of_openFrame_eq_ok {f : Function} {args : List Value} {frame : Scope} {t : State σ}
    (h : openFrame m f args s = .ok frame t) : frame = (s.store.newChild f.closure).1 := by
  rw [openFrame_eq] at h
  obtain ⟨_, _, _, hpure⟩ := eq_ok_of_bind h
  cases hpure
  rfl

/-- The frame of a call is opened, and nothing is bound in the old frames. -/
theorem acts_openFrame (f : Function) (args : List Value) (hs : s.Fits w u) :
    Acts w ∅ (openFrame m f args) (openFrame m f args) s := by
  rw [openFrame_eq_bind]
  refine .openIn hs ?_
  have ht := hs.newChild f.closure
  refine .andThen ht (acts_forM_bindIn hs.opened _ _ ht fun hw => ?_)
    fun _ _ _ _ hfits => .still hfits (.pure _)
  exact ⟨(hs.orderly hw).unreserved_newChild f.closure,
    (Store.BindsJust.newChild s.store f.closure).opened⟩

/-- With as many arguments as parameters the frame of a call is opened, and it binds just the
parameters. -/
theorem openFrame_eq_ok (m : Setup σ) {f : Function} {args : List Value} (hs : s.store.Orderly)
    (hf : s.store.Declares f) (hlength : args.length = f.params.length) :
    ∃ t, openFrame m f args s = .ok (s.store.newChild f.closure).1 t ∧
      t.store.BindsArguments (s.store.newChild f.closure).1.frame f.params := by
  have hparams : (f.params.zip args).map Prod.fst = f.params :=
    List.map_fst_zip (Nat.le_of_eq hlength.symm)
  have hnone : (s.store.newChild f.closure).2.BindsArguments
      (s.store.newChild f.closure).1.frame [] :=
    ⟨.newChild s.store f.closure, fun _ h => nomatch h⟩
  obtain ⟨t, ht, hbound⟩ := @forM_bindIn_of_nodup _ m.program.names _ (f.params.zip args) []
    { s with store := (s.store.newChild f.closure).2 } hnone
    (by rw [hparams]; exact (hs.reserves hf).nodup)
  rw [List.nil_append, hparams] at hbound
  exact ⟨t, bind_of_ok ht, hbound⟩

/-- The scope in which the body of a function is executed is lexical. -/
theorem lexical_openFrame {f : Function} {args : List Value} {frame : Scope} {t : State σ}
    (hs : s.Fits w u) (hw : w.ordered) (hf : s.store.Declares f)
    (hlength : args.length = f.params.length) (h : openFrame m f args s = .ok frame t) :
    t.store.Lexical frame.frames := by
  obtain ⟨t', ht', hbound⟩ := openFrame_eq_ok m (hs.orderly hw) hf hlength
  rw [h] at ht'
  cases ht'
  rw [openFrame_eq] at h
  obtain ⟨_, t', hbinds, hpure⟩ := eq_ok_of_bind h
  cases hpure
  have hfree := (hs.orderly hw).unreserved_newChild f.closure
  have hopen := (Store.BindsJust.newChild s.store f.closure).opened
  have hleads := (acts_forM_bindIn (m := m) hs.opened (f.params.zip args) _
    (hs.newChild f.closure) fun _ => ⟨hfree, hopen⟩).leads
  rw [hbinds] at hleads
  have hlater := hleads.later hw
  have hdeclared : t.store.Declares f := hlater.declares hf
  exact .call (hleads.orderly hw) hdeclared hbound (hfree.later hopen hlater)

/-! ## Expressions -/

/-- A module has been read of a cell. -/
theorem moduleOf_eq_ok {operand : Operand} {info : ModuleInfo} {t : State σ}
    (h : moduleOf operand s = .ok info t) : ∃ cell, s.store.read? cell = some (.module info) := by
  cases operand with
  | value v => cases h
  | cell cell =>
    obtain ⟨binding, v, hread, hmatch⟩ := eq_ok_of_bind h
    rw [Exec.read_eq] at hread
    cases hread
    cases hcell : s.store.read? cell with
    | none =>
      rw [hcell] at hmatch
      cases hmatch
    | some binding =>
      rw [hcell] at hmatch
      cases binding with
      | module info' =>
        cases hmatch
        exact ⟨cell, hcell⟩
      | _ => cases hmatch

section Expressions

variable {evaluate evaluate' : Exec σ Operand}
  (heval : ∀ t : State σ, t.Fits w u → Acts w ∅ evaluate evaluate' t)

include heval

theorem acts_evaluateValue (hs : s.Fits w u) :
    Acts w ∅ (evaluateValue evaluate) (evaluateValue evaluate') s :=
  .andThen hs (heval s hs) fun operand _ _ _ ht => .still ht (.valueOf operand)

theorem acts_evaluateOptional (hs : s.Fits w u) :
    Acts w ∅ (evaluateOptional m evaluate) (evaluateOptional m evaluate') s := by
  refine .afterStill hs (.decode _) fun there t _ _ _ ht => ?_
  cases there with
  | false => exact .still ht (.pure _)
  | true => exact acts_evaluateValue heval ht

theorem acts_unary (hs : s.Fits w u) : Acts w ∅ (unary m evaluate) (unary m evaluate') s := by
  refine .afterStill hs (.decode _) fun code t _ _ _ ht => ?_
  cases UnaryOp.ofByte? code with
  | none => exact .still ht (.fail _)
  | some op =>
    exact .andThen ht (acts_evaluateValue heval ht) fun v _ _ _ ht' => .still ht' (.lift _)

theorem acts_binary (hs : s.Fits w u) : Acts w ∅ (binary m evaluate) (binary m evaluate') s := by
  refine .afterStill hs (.decode _) fun code t _ _ _ ht => ?_
  cases BinaryOp.ofByte? code with
  | none => exact .still ht (.fail _)
  | some op =>
    refine .andThen ht (heval t ht) fun left t' _ _ ht' => ?_
    refine .andThen ht' (heval t' ht') fun right _ _ _ ht'' => .still ht'' ?_
    -- Once both operands are evaluated cells are only read.
    have hvalues : Exec.Still (σ := σ) (do
        let a ← Exec.valueOf left
        let b ← Exec.valueOf right
        Exec.lift (op.apply a b)) :=
      (Exec.Still.valueOf left).bind fun a => (Exec.Still.valueOf right).bind fun b => .lift _
    dsimp only
    split
    · exact (Exec.Still.moduleOf left).bind fun _ => hvalues
    · exact hvalues

/-- The scope of a module is entered for an expression, which binds nothing there. -/
theorem acts_accessor (hs : s.Fits w u) :
    Acts w ∅ (accessor evaluate) (accessor evaluate') s := by
  refine .andThen hs (heval s hs) fun operand t _ _ ht => ?_
  refine .afterStill ht (.moduleOf operand) fun info t' hmodule hstore _ ht' => ?_
  -- The scope of a module is lexical, because the store is in order.
  refine .inScope (.inl rfl) (heval _ (ht'.inScope rfl fun hw => ?_))
  obtain ⟨cell, hcell⟩ := moduleOf_eq_ok hmodule
  rw [hstore]
  exact (ht.orderly hw).admits cell _ hcell

/-- The expression at the position binds nothing, given a call that does not. -/
theorem acts_expression {call call' : Exec σ Value}
    (hcall : ∀ t : State σ, t.Fits w u → Acts w ∅ call call' t) (hs : s.Fits w u) :
    Acts w ∅ (expression m evaluate call) (expression m evaluate' call') s := by
  refine .afterStill hs (.decode _) fun code t _ _ _ ht => ?_
  cases ExpressionOp.ofByte? code with
  | none => exact .still ht (.fail _)
  | some op =>
    cases op with
    | unary => exact .andThen ht (acts_unary heval ht) fun _ _ _ _ ht' => .still ht' (.pure _)
    | binary => exact .andThen ht (acts_binary heval ht) fun _ _ _ _ ht' => .still ht' (.pure _)
    | group => exact heval t ht
    | literal => exact .afterStill ht (.decode _) fun _ _ _ _ _ ht' => .still ht' (.pure _)
    | «variable» =>
      exact .still ht ((Exec.Still.decode _).bind fun name =>
        (Exec.Still.resolve _ name).bind fun _ => .pure _)
    | call => exact .andThen ht (hcall t ht) fun _ _ _ _ ht' => .still ht' (.pure _)
    | accessor => exact acts_accessor heval ht

end Expressions

/-! ## Calls -/

/-- Evaluates the arguments of the call at the position, and yields them with the called name. -/
def callArguments (m : Setup σ) (evaluate : Exec σ Operand) : Exec σ (Symbol × List Value) := do
  let callee ← Exec.decode (Decoder.symbol m.program.image)
  let number ← Exec.decode (Decoder.count m.program.image 1)
  let args ← Exec.collect (evaluateValue evaluate) number
  return (callee, args)

/-- Calls what a name stands for. -/
def callNamed (m : Setup σ) (execute : Exec σ Flow) (callee : Symbol) (args : List Value) :
    Exec σ Value := do
  match ← Exec.read (← Exec.resolve m.program.names callee) with
  | .function f => invoke m execute f args
  | .host _ f => callHost f args
  | other => Exec.fail (.notCallable (other.kind ++ " " ++ m.program.names.display callee))

/-- A call evaluates the arguments before it looks up the name. -/
theorem call_eq (m : Setup σ) (execute : Exec σ Flow) (evaluate : Exec σ Operand) :
    call m execute evaluate =
      callArguments m evaluate >>= fun i => callNamed m execute i.1 i.2 := by
  simp only [callArguments, bind_assoc, pure_bind]
  rfl

theorem acts_callArguments {evaluate evaluate' : Exec σ Operand}
    (heval : ∀ t : State σ, t.Fits w u → Acts w ∅ evaluate evaluate' t) (hs : s.Fits w u) :
    Acts w ∅ (callArguments m evaluate) (callArguments m evaluate') s := by
  refine .afterStill hs (.decode _) fun callee t _ _ _ ht => ?_
  refine .afterStill ht (.decode _) fun number t _ _ _ ht => ?_
  exact .andThen ht (.collect (fun _ => acts_evaluateValue heval) number t ht)
    fun _ _ _ _ hfits => .still hfits (.pure _)

section Calls

variable {execute execute' : Exec σ Flow}
  (hexec : ∀ t : State σ, t.Fits w u → Acts w Set.univ execute execute' t)

include hexec

/-- The names that the body of a function binds in its own frame do not count. -/
theorem acts_enter (f : Function) {frame : Scope} (hs : s.Fits w u)
    (hnew : w.old ≤ frame.frame.index) (hlexical : w.ordered → s.store.Lexical frame.frames) :
    Acts w ∅ (enter m execute f frame) (enter m execute' f frame) s := by
  have hbody := hexec { s with
    position := f.body, scope := frame, modules := f.name.parent, depth := s.depth + 1 }
    (hs.inScope rfl hlexical)
  refine .mapError (.andThen hs (.inCall hnew hbody) fun flow t _ _ ht => ?_)
  cases flow with
  | normal | returnValue => exact .still ht (.pure _)
  | breakLoop => exact .still ht (.fail _)

/-- A function that has been declared is called in a lexical frame of its own. -/
theorem acts_invoke (f : Function) (args : List Value) (hs : s.Fits w u)
    (hf : w.ordered → s.store.Declares f) :
    Acts w ∅ (invoke m execute f args) (invoke m execute' f args) s := by
  rw [invoke_eq, invoke_eq]
  by_cases hlength : args.length = f.params.length
  · rw [if_pos hlength, if_pos hlength]
    refine .withinDepth m hs ?_
    refine .andThen hs (acts_openFrame f args hs) fun frame t heq _ ht => ?_
    refine acts_enter hexec f ht ?_ fun hw => lexical_openFrame hs hw (hf hw) hlength heq
    rw [eq_of_openFrame_eq_ok heq]
    exact hs.opened
  · rw [if_neg hlength, if_neg hlength]
    exact .still hs (.fail _)

/-- A call binds nothing where it is made. -/
theorem acts_call {evaluate evaluate' : Exec σ Operand}
    (heval : ∀ t : State σ, t.Fits w u → Acts w ∅ evaluate evaluate' t) (hs : s.Fits w u) :
    Acts w ∅ (call m execute evaluate) (call m execute' evaluate') s := by
  rw [call_eq, call_eq]
  refine .andThen hs (acts_callArguments heval hs) fun ⟨callee, args⟩ t _ _ ht => ?_
  refine .afterStill ht (.resolve _ _) fun cell t _ _ _ ht => ?_
  refine .afterStill ht (.read cell) fun binding t' hread _ _ ht' => ?_
  rw [Exec.read_eq] at hread
  cases hread
  cases hcell : t.store.read? cell with
  | none => exact .still ht (.fail _)
  | some binding =>
    cases binding with
    | function f => exact acts_invoke hexec f args ht fun _ => ⟨cell, hcell⟩
    | host name f => exact .still ht (.callHost f args)
    | _ => exact .still ht (.fail _)

end Calls

/-! ## Declarations -/

/-- A declaration ends with a binding in the current scope. -/
theorem acts_declared (name : Symbol) {binding : Binding σ} (hs : s.Fits w u)
    (hadmits : w.ordered → s.store.Admits binding) (hne : ∀ f, binding ≠ .function f) :
    Acts w {name} (do Exec.bindHere m.program.names name binding; return Flow.normal)
      (do Exec.bindHere m.program.names name binding; return Flow.normal) s :=
  .before hs (.bindHere hs _ name hadmits hne) fun _ _ _ _ ht => .still ht (.pure _)

variable (m) in
/-- Reads a parameter and binds a placeholder for it. -/
def draft (closure : Scope) : Exec σ Symbol := do
  let param ← Exec.decode (Decoder.symbol m.program.image)
  Exec.bindIn m.program.names closure param .uninitialized
  return param

variable (m) in
/-- Declares a function whose parameters have placeholders already. -/
def declareDrafted (name : Symbol) (closure : Scope) (params : List Symbol) : Exec σ Flow := do
  let body ← Exec.position
  Exec.decode (Decoder.passStatement m.program.image)
  Exec.bindHere m.program.names name
    (.function { name := ← Exec.qualify name, params, body, closure })
  return .normal

variable (m) in
/-- A declaration of a function drafts its parameters and then declares it. -/
theorem declareFunction_eq : declareFunction m = (do
    let name ← Exec.decode (Decoder.symbol m.program.image)
    let number ← Exec.decode (Decoder.count m.program.image 4)
    let closure ← Exec.openScope
    let params ← Exec.collect (draft m closure) number
    declareDrafted m name closure params) := rfl

/-- Placeholders are bound in a new frame that is no closure yet. -/
theorem acts_collect_draft {closure : Scope} (hs : s.Fits w u)
    (hnew : w.old ≤ closure.frame.index)
    (hfree : w.ordered →
      s.store.Unreserved closure.frame ∧ closure.frame.index < s.store.frames.size) (n : Nat) :
    Acts w ∅ (Exec.collect (draft m closure) n) (Exec.collect (draft m closure) n) s := by
  refine .collect (fun t ht => ?_) n s hs.here
  refine .afterStill ht (.decode _) fun param t _ _ _ ht => ?_
  refine .andThen ht (.bindIn ht _ param (.inr hnew) (fun hw => ?_) (fun _ => trivial) nofun)
    fun _ _ _ _ ht => .still ht (.pure _)
  exact (hfree hw).1.later (hfree hw).2 (ht.later hw)

/-- Placeholders are drafted one after the other. -/
theorem drafts_collect {closure : Scope} (hu : u.Orderly) (n : Nat) :
    ∀ {names params : List Symbol} {s t : State σ},
      Store.Drafts u closure.frame names s.store →
      Exec.collect (draft m closure) n s = .ok params t →
      Store.Drafts u closure.frame (names ++ params) t.store := by
  induction n with
  | zero =>
    intro names params s t hs h
    cases h
    rwa [List.append_nil]
  | succ n ih =>
    intro names params s t hs h
    obtain ⟨param, s₁, hfirst, hrest⟩ := eq_ok_of_bind h
    obtain ⟨others, s₂, hothers, hpure⟩ := eq_ok_of_bind hrest
    cases hpure
    obtain ⟨_, s₃, hdecode, hbinds⟩ := eq_ok_of_bind hfirst
    cases hdecode
    obtain ⟨_, s₄, hbind, hpure⟩ := eq_ok_of_bind hbinds
    cases hpure
    rw [Exec.bindIn] at hbind
    split at hbind
    · cases hbind
    · rename_i hunbound
      cases hbind
      have hone := hs.bind hu (by simpa [Store.bindsLocally] using hunbound)
      have hall := ih hone hothers
      rwa [List.append_assoc] at hall

/-- Where the closure of a function has been drafted, the function is bound in the scope around
it. -/
theorem leads_declareDrafted {closure : Scope} {params : List Symbol} {t : State σ} (name : Symbol)
    (hs : s.Fits w u) (hleads : s.Leads w ∅ t) (houter : closure.outer = s.scope.frames)
    (hdrafts : w.ordered → Store.Drafts s.store closure.frame params t.store) :
    s.Leads w {name} (endState (declareDrafted m name closure params t)) := by
  have hnone : (∅ : Set Symbol) ⊆ {name} := Set.empty_subset _
  refine hleads.afterStill hnone .position fun body t₁ _ hstore₁ h₁ => ?_
  refine h₁.afterStill hnone (.decode _) fun _ t₂ _ hstore₂ h₂ => ?_
  refine h₂.afterStill hnone (.qualify name) fun qualified t₃ _ hstore₃ h₃ => ?_
  rw [endState_bind_pure, Exec.bindHere_eq]
  refine h₃.bindIn _ name (.inl ⟨by rw [h₃.scope], rfl⟩) fun hunbound hw => ?_
  rw [hstore₃, hstore₂, hstore₁] at hunbound ⊢
  rw [h₃.scope] at hunbound ⊢
  exact (hdrafts hw).declare (hs.orderly hw) (hs.lexical hw) houter hunbound

/-- A declaration of a function binds its name; its parameters are bound in a new frame. -/
theorem acts_declareFunction (hs : s.Fits w u) :
    Acts w {⟨m.program.image.int32At s.position⟩} (declareFunction m) (declareFunction m) s := by
  rw [declareFunction_eq]
  refine .afterStill hs (.decode _) fun name s₁ hdecode _ _ h₁ => ?_
  cases hdecode
  refine .afterStill h₁ (.decode _) fun number s₂ _ _ _ h₂ => ?_
  have hbinds := Store.BindsJust.newChild s₂.store s₂.scope
  have hcollect := acts_collect_draft (m := m) (h₂.newChild s₂.scope) h₂.opened (fun hw =>
    ⟨(h₂.orderly hw).unreserved_newChild s₂.scope, hbinds.opened⟩) number
  have hdrafted := (State.Leads.newChild h₂ s₂.scope).trans hcollect.leads (.inl rfl)
  rw [Set.empty_union] at hdrafted
  refine .of_leads ?_
  rw [bind_of_ok (Exec.openScope_eq s₂)]
  -- The function is new against the store before its closure has been opened, not after it.
  cases hend : Exec.collect (draft m (s₂.store.newChild s₂.scope).1) number
      { s₂ with store := (s₂.store.newChild s₂.scope).2 } with
  | error stop t =>
    rw [hend] at hdrafted
    rw [bind_of_error hend]
    exact hdrafted.weaken _
  | ok params t =>
    rw [hend] at hdrafted
    have hdrafts := fun hw => drafts_collect (h₂.orderly hw) number
      (.newChild (h₂.orderly hw) s₂.scope) hend
    rw [bind_of_ok hend]
    exact leads_declareDrafted _ h₂ hdrafted rfl hdrafts

/-- A declaration of a class binds its name. -/
theorem acts_declareClass (hs : s.Fits w u) :
    Acts w {⟨m.program.image.int32At s.position⟩} (declareClass m) (declareClass m) s := by
  refine .afterStill hs (.decode _) fun name t hdecode _ _ ht => ?_
  cases hdecode
  refine .afterStill ht (.decode _) fun fields t _ _ _ ht => ?_
  refine .afterStill ht (.decode _) fun methods t _ _ _ ht => ?_
  refine .afterStill ht .get fun here t' heq _ _ ht' => ?_
  cases heq
  refine .afterStill ht (.qualify _) fun qualified t' _ hstore _ ht' => ?_
  exact acts_declared _ ht' (fun hw => hstore ▸ ht.lexical hw) nofun

/-- An import binds one name. -/
theorem acts_bindHost (source target : Symbol) (hs : s.Fits w u) :
    Acts w {target} (bindHost m source target) (bindHost m source target) s := by
  rw [bindHost]
  cases m.program.names.get? source with
  | none => exact .still hs (.fail _)
  | some name =>
    dsimp only
    cases m.hosts.get? name with
    | none => exact .still hs (.fail _)
    | some f =>
      exact .afterStill hs (.qualify target) fun _ _ _ _ _ ht =>
        acts_declared target ht (fun _ => trivial) fun _ h => by cases h

theorem acts_importHost (hs : s.Fits w u) :
    Acts w Set.univ (importHost m) (importHost m) s := by
  rw [importHost_eq]
  refine .afterStill hs (.decode _) fun source t _ _ _ ht => ?_
  refine .afterStill ht (.decode _) fun there t _ _ _ ht => ?_
  cases there with
  | false => exact (acts_bindHost source source ht).mono (Set.subset_univ _)
  | true =>
    exact .afterStill ht (.decode _) fun target _ _ _ _ ht =>
      (acts_bindHost source target ht).mono (Set.subset_univ _)

/-! ## Statements -/

/-- The names of which a statement with this opcode may bind one, where its fields begin at the
offset `p`. -/
def namesOf (image : Image) (p : Nat) : StatementOp → Set Symbol
  | .declare => {⟨image.int32At (p + 1)⟩}
  | .function | .classDecl | .module => {⟨image.int32At p⟩}
  | .branch | .importHost => Set.univ
  | .print | .block | .assign | .loop | .breakLoop | .call | .returnValue | .reserved => ∅

/-- The names of which the statement at an offset may bind one. -/
def namesAt (image : Image) (p : Nat) : Set Symbol :=
  match StatementOp.ofByte? (image.byteAt p) with
  | some op => namesOf image (p + 1) op
  | none => ∅

section Evaluate

variable {evaluate evaluate' : Exec σ Operand}
  (heval : ∀ t : State σ, t.Fits w u → Acts w ∅ evaluate evaluate' t)

include heval

theorem acts_condition (hs : s.Fits w u) :
    Acts w ∅ (condition evaluate) (condition evaluate') s :=
  .andThen hs (acts_evaluateValue heval hs) fun _ _ _ _ ht => .still ht (.lift _)

theorem acts_print (hs : s.Fits w u) : Acts w ∅ (print m evaluate) (print m evaluate') s :=
  .andThen hs (heval s hs) fun operand _ _ _ ht =>
    .still ht ((Exec.Still.bindingOf operand).bind fun _ =>
      (Exec.Still.emitLine m _).bind fun _ => .pure _)

theorem acts_returnValue (hs : s.Fits w u) :
    Acts w ∅ (returnValue m evaluate) (returnValue m evaluate') s :=
  .andThen hs (acts_evaluateOptional heval hs) fun _ _ _ _ ht => .still ht (.pure _)

/-- A declaration of a variable binds its name. -/
theorem acts_declare (hs : s.Fits w u) :
    Acts w {⟨m.program.image.int32At (s.position + 1)⟩} (declare m evaluate) (declare m evaluate')
      s := by
  refine .afterStill hs (.decode _) fun flag t hdecode _ _ ht => ?_
  cases hdecode
  refine .afterStill ht (.decode _) fun name t hdecode _ _ ht => ?_
  cases hdecode
  refine .andThen ht (acts_evaluateOptional heval ht) fun value t _ _ ht => ?_
  exact acts_declared _ ht (fun _ => trivial) nofun

omit heval in
/-- A cell is found where the symbol stands for it. -/
theorem resolve_eq_ok {names : NameTable} {name : Symbol} {cell : CellId} {t : State σ}
    (h : Exec.resolve names name s = .ok cell t) :
    t = s ∧ s.store.lookup? s.scope name = some cell := by
  cases hlookup : s.store.lookup? s.scope name with
  | none =>
    rw [Exec.resolve_of_none s hlookup] at h
    cases h
  | some found =>
    rw [Exec.resolve_of_some s hlookup] at h
    cases h
    exact ⟨rfl, rfl⟩

/-- An assignment writes the cell for which its symbol stands before the new value is evaluated.
Whatever the evaluation does, the cell still holds a variable. -/
theorem acts_assign (hs : s.Fits w u)
    (hkept : ∀ cell,
      s.store.lookup? s.scope ⟨m.program.image.int32At s.position⟩ = some cell → ¬ w.kept cell) :
    Acts w ∅ (assign m evaluate) (assign m evaluate') s := by
  refine .afterStill hs (.decode _) fun name t hdecode _ _ ht => ?_
  cases hdecode
  refine .afterStill ht (.resolve _ _) fun cell t' hresolve _ _ _ => ?_
  obtain ⟨rfl, hlookup⟩ := resolve_eq_ok hresolve
  refine .afterStill ht (.read cell) fun binding t' hread _ _ _ => ?_
  obtain ⟨hbinding, rfl⟩ := (EStateM.Result.ok.injEq ..).mp hread
  cases binding with
  | «variable» constant old =>
    cases constant with
    | true => exact .afterStill ht (.fail _) fun _ _ h => nomatch h
    | false =>
      refine .andThen ht (acts_evaluateValue heval ht) fun value t' _ hleads ht' => ?_
      refine .andThen ht' (.write ht' (fun hw => ?_) (hkept cell hlookup) value)
        fun _ _ _ _ ht => .still ht (.pure _)
      exact ((ht.lexical hw).assignable (ht.orderly hw) hlookup hbinding).later (hleads.later hw)
  | _ => exact .afterStill ht (.fail _) fun _ _ h => nomatch h

end Evaluate

section Execute

variable {execute execute' : Exec σ Flow}
  (hexec : ∀ t : State σ, t.Fits w u → Acts w Set.univ execute execute' t)

include hexec

theorem acts_executeOptional (hs : s.Fits w u) :
    Acts w Set.univ (executeOptional m execute) (executeOptional m execute') s := by
  refine .afterStill hs (.decode _) fun there t _ _ _ ht => ?_
  cases there with
  | false => exact .still ht (.pure _)
  | true => exact hexec t ht

/-- The names of a block are bound in a new frame. -/
theorem acts_block (hs : s.Fits w u) : Acts w ∅ (block m execute) (block m execute') s := by
  refine .afterStill hs (.decode _) fun number t _ _ _ ht => ?_
  refine .openScope ht fun scope t hnew ht hlexical => .inScope (.inl rfl) ?_
  exact .sequence (fun t' ht' hnew' => (hexec t' ht').of_new hnew') number _
    (ht.inScope rfl hlexical) hnew

/-- In a new frame the step of a loop may bind names. -/
theorem acts_loopStep (hs : s.Fits w u) (hnew : w.old ≤ s.scope.frame.index) :
    Acts w ∅ (loopStep m execute) (loopStep m execute') s := by
  refine .afterStill hs .position fun start t _ _ hscope ht => ?_
  refine .andThen ht ((acts_executeOptional hexec ht).of_new (hscope ▸ hnew))
    fun flow t _ _ ht => ?_
  cases flow with
  | normal | returnValue => exact .still ht (.pure _)
  | breakLoop =>
    exact .still ht ((Exec.Still.seek start).bind fun _ => (Exec.Still.decode _).bind fun _ =>
      .pure _)

/-- In a new frame the members of a module may bind names. -/
theorem acts_moduleMembers (hs : s.Fits w u) (hnew : w.old ≤ s.scope.frame.index) :
    Acts w ∅ (moduleMembers m execute) (moduleMembers m execute') s := by
  refine .afterStill hs (.decode _) fun number t _ _ hscope ht => ?_
  refine .andThen ht (.sequence (fun t' ht' hnew' => (hexec t' ht').of_new hnew') number t ht
    (hscope ▸ hnew)) fun flow t _ _ ht => ?_
  cases flow with
  | normal => exact .still ht (.pure _)
  | breakLoop | returnValue => exact .still ht (.fail _)

/-- A declaration of a module binds its name; its members are bound in a new frame. -/
theorem acts_declareModule (hs : s.Fits w u) :
    Acts w {⟨m.program.image.int32At s.position⟩} (declareModule m execute)
      (declareModule m execute') s := by
  refine .afterStill hs (.decode _) fun name t hdecode _ _ ht => ?_
  obtain ⟨hname, -⟩ := (EStateM.Result.ok.injEq ..).mp hdecode
  rw [hname]
  refine .openScope ht fun scope t hnew ht hlexical => ?_
  have hfits : { t with modules := t.modules ++ [name], scope : State σ }.Fits w u :=
    ht.inScope rfl hlexical
  -- Whatever the members bind is bound in the new frame, the name of the module around it.
  have hmembers := acts_moduleMembers (m := m) hexec hfits hnew
  refine .andThen ht (.inModule (.inScope (.inl rfl) (.andThen hfits hmembers
    fun _ t' _ hleads ht' => acts_moduleMembers hexec ht' (hleads.scope ▸ hnew))))
    fun _ t' _ hleads ht' => ?_
  refine .afterStill ht' (.qualify name) fun qualified t'' _ hstore _ ht'' => ?_
  exact acts_declared name ht'' (fun hw => hstore ▸ (hlexical hw).later (hleads.later hw)) nofun

variable {evaluate evaluate' : Exec σ Operand}
  (heval : ∀ t : State σ, t.Fits w u → Acts w ∅ evaluate evaluate' t)

include heval

/-- One of two statements binds a name, or none does. -/
theorem acts_branch (hs : s.Fits w u) :
    Acts w Set.univ (branch m execute evaluate) (branch m execute' evaluate') s := by
  refine .andThen hs (acts_condition heval hs) fun holds t _ _ ht => ?_
  cases holds with
  | true =>
    refine .before ht (hexec t ht) fun flow t _ _ ht => ?_
    cases flow with
    | normal => exact .afterStill ht (.decode _) fun _ _ _ _ _ ht => .still ht (.pure _)
    | breakLoop | returnValue => exact .still ht (.pure _)
  | false => exact .afterStill ht (.decode _) fun _ _ _ _ _ ht => acts_executeOptional hexec ht

/-- In a new frame a turn of a loop may bind names. -/
theorem acts_loopTurn (start : Nat) (hs : s.Fits w u) (hnew : w.old ≤ s.scope.frame.index) :
    Acts w ∅ (loopTurn m execute evaluate start) (loopTurn m execute' evaluate' start) s := by
  -- From part to part the scope stays the one whose frame is new.
  refine .afterStill hs (.seek start) fun _ t _ _ hscope ht => ?_
  rw [← hscope] at hnew
  refine .andThen ht (acts_condition heval ht) fun holds t _ hleads ht => ?_
  rw [← hleads.scope] at hnew
  cases holds with
  | true =>
    refine .afterStill ht .position fun body t _ _ hscope ht => ?_
    rw [← hscope] at hnew
    refine .andThen ht ((hexec t ht).of_new hnew) fun flow t _ hleads ht => ?_
    rw [← hleads.scope] at hnew
    cases flow with
    | normal =>
      refine .andThen ht (acts_loopStep hexec ht hnew) fun flow t _ _ ht => ?_
      cases flow with
      | normal | breakLoop | returnValue => exact .still ht (.pure _)
    | breakLoop =>
      refine .afterStill ht ((Exec.Still.seek body)) fun _ t _ _ hscope ht => ?_
      rw [← hscope] at hnew
      refine .afterStill ht (.decode _) fun _ t _ _ hscope ht => ?_
      rw [← hscope] at hnew
      refine .andThen ht (acts_loopStep hexec ht hnew) fun flow t _ _ ht => ?_
      cases flow with
      | normal | breakLoop | returnValue => exact .still ht (.pure _)
    | returnValue => exact .still ht (.pure _)
  | false =>
    exact .still ht ((Exec.Still.decode _).bind fun _ => (Exec.Still.decode _).bind fun _ =>
      .pure _)

/-- The names of a loop are bound in a new frame. -/
theorem acts_loop (turns : Nat) (hs : s.Fits w u) :
    Acts w ∅ (loop m execute evaluate turns) (loop m execute' evaluate' turns) s := by
  refine .openScope hs fun scope t hnew ht hlexical => .inScope (.inl rfl) ?_
  have hfits : { t with scope : State σ }.Fits w u := ht.inScope rfl hlexical
  refine .andThen hfits ((acts_executeOptional hexec hfits).of_new hnew)
    fun flow t' _ hleads ht' => ?_
  cases flow with
  | normal =>
    refine .afterStill ht' .position fun start t'' _ _ hscope ht'' => ?_
    exact .iterate (fun _ => acts_loopTurn hexec heval start) turns t'' ht''
      (hscope ▸ hleads.scope ▸ hnew)
  | breakLoop | returnValue => exact .still ht' (.pure _)

/-- The execution for an opcode binds one of the names that the opcode lets it, or none. -/
theorem acts_statementOf (turns : Nat) (op : StatementOp) (hs : s.Fits w u)
    (hkept : op = .assign → ∀ cell,
      s.store.lookup? s.scope ⟨m.program.image.int32At s.position⟩ = some cell → ¬ w.kept cell) :
    Acts w (namesOf m.program.image s.position op) (statementOf m execute evaluate turns op)
      (statementOf m execute' evaluate' turns op) s := by
  cases op with
  | print => exact acts_print heval hs
  | branch => exact acts_branch hexec heval hs
  | block => exact acts_block hexec hs
  | declare => exact acts_declare heval hs
  | assign => exact acts_assign heval hs (hkept rfl)
  | loop => exact acts_loop hexec heval turns hs
  | breakLoop => exact .still hs (.pure _)
  | function => exact acts_declareFunction hs
  | call => exact .andThen hs (acts_call hexec heval hs) fun _ _ _ _ ht => .still ht (.pure _)
  | returnValue => exact acts_returnValue heval hs
  | classDecl => exact acts_declareClass hs
  | module => exact acts_declareModule hexec hs
  | importHost => exact acts_importHost hs
  | reserved => exact .still hs (.fail _)

/-- The statement at the position binds one of the names that its opcode lets it, or none, unless
it is an assignment to a cell that is not to be written. -/
theorem acts_statement (turns : Nat) (hs : s.Fits w u)
    (hkept : ∀ cell, Begun.Assigns m ⟨.statement, s⟩ cell → ¬ w.kept cell) :
    Acts w (namesAt m.program.image s.position) (statement m execute evaluate turns)
      (statement m execute' evaluate' turns) s := by
  refine .afterStill hs .position fun start s' hposition _ _ _ => ?_
  cases hposition
  refine .mapError (.afterStill hs (.countStatement m) fun _ t hcount hstore hscope ht => ?_)
  have hposition : t.position = s.position := by rw [countStatement_eq_ok hcount]
  refine .afterStill ht (.decode _) fun code t' hdecode hstore' hscope' ht' => ?_
  cases hdecode
  rw [namesAt, ← hposition]
  cases hop : StatementOp.ofByte? (m.program.image.byteAt t.position) with
  | none => exact .still ht' (.fail _)
  | some op =>
    refine acts_statementOf (s := { t with position := t.position + 1 }) hexec heval turns op ht'
      fun hassign cell hcell => hkept cell ?_
    rw [hstore', hscope', hstore, hscope] at hcell
    rw [Begun.Assigns, ← hposition]
    exact ⟨rfl, hop.trans (congrArg some hassign), hcell⟩

end Execute

end Bytewalk.Machine
