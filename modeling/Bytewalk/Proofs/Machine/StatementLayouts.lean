import Bytewalk.Proofs.Machine.ExpressionLayouts

/-!
# Statements follow their layouts

What the machine does with a statement follows the layout of its opcode, given executions for the
parts inside that follow a statement and an expression. A signal out of the statement may leave
the position anywhere; only where it is received does the position count again.
-/

namespace Bytewalk.Machine

variable {σ : Type} {m : Setup σ} {s : State σ}

/-! ## Elementary executions -/

/-- A symbol is bound in the current scope without reading bytes. -/
theorem follows_bindHere (name : Symbol) {binding : Binding σ}
    (hbody : ∀ f, binding = .function f →
      Sound m s.store → ∃ q, Passes m.program.image [.statement] f.body q)
    (hhost : ∀ n f, binding = .host n f → Sound m s.store → f ∈ m.hosts.functions) :
    Follows m s.position [] (fun _ => True)
      (Exec.bindHere m.program.names name binding) s :=
  (follows_bindIn s.scope name hbody hhost).of_eq (Exec.bindHere_eq s _ name binding) id

/-- A declaration ends with a binding. -/
theorem follows_declared (name : Symbol) {binding : Binding σ}
    (hbody : ∀ f, binding = .function f →
      Sound m s.store → ∃ q, Passes m.program.image [.statement] f.body q)
    (hhost : ∀ n f, binding = .host n f → Sound m s.store → f ∈ m.hosts.functions) :
    Follows m s.position [] (· = Flow.normal) (do
      Exec.bindHere m.program.names name binding
      return .normal) s :=
  (follows_bindHere name hbody hhost).andThen fun _ _ _ => .return_nil

/-- A statement is counted without reading bytes. -/
theorem follows_countStatement :
    Follows m s.position [] (fun _ => True) (countStatement m) s := by
  rcases countStatement_cases m s with hlt | ⟨limit, hfuel, hle⟩
  · exact .of_still (countStatement_of_lt hlt) rfl id
  · exact .of_failed (countStatement_of_le hfuel hle) id fun _ => id

/-! ## Statements -/

section Statements

variable {execute : Exec σ Flow} {evaluate : Exec σ Operand}
  (hexec : ∀ s : State σ, Follows m s.position [.statement] (· = .normal) execute s)
  (heval : ∀ s : State σ, Follows m s.position [.expression] (fun _ => True) evaluate s)

include hexec in
/-- An optional statement is followed as far as it is there. -/
theorem follows_executeOptional (s : State σ) :
    Follows m s.position [.optional .statement] (· = .normal) (executeOptional m execute) s :=
  .optional (hexec s) (.pure fun _ => passes_nil.2 rfl)

include heval in
/-- A condition follows its expression. -/
theorem follows_condition (s : State σ) :
    Follows m s.position [.expression] (fun _ => True) (condition evaluate) s :=
  (follows_evaluateValue heval s).andThen fun _ _ _ => follows_lift fun _ => isOverTypes_of_truthy

include heval in
/-- A statement that prints follows its expression. -/
theorem follows_print (s : State σ) :
    Follows m s.position [.expression] (· = .normal) (print m evaluate) s := by
  refine (heval s).andThen fun operand t _ => ?_
  refine (follows_bindingOf operand).andThen fun binding u _ => ?_
  have hline : Follows m u.position [] (fun _ => True)
      (emitLine m (binding.render m.program.names)) u := by
    refine .of_still (emitLine_eq _ u) ?_ ?_
    · split <;> rfl
    · split <;> exact id
  exact hline.andThen fun _ _ _ => .return_nil

include hexec heval in
/-- Whichever of two statements is executed, the other is passed over. -/
theorem follows_branch (s : State σ) :
    Follows m s.position [.expression, .statement, .optional .statement] (· = .normal)
      (branch m execute evaluate) s := by
  refine (follows_condition heval s).andThen fun holds t _ => ?_
  cases holds with
  | true =>
    refine (hexec t).bind (fun flow u _ hflow => ?_) fun flow u _ hflow => ?_
    · rw [hflow]
      exact Follows.passOptionalStatement.andThen fun _ _ _ => .return_nil
    · cases flow with
      | normal => exact absurd rfl hflow
      | breakLoop => exact .pure hflow
      | returnValue value => exact .pure hflow
  | false =>
    exact Follows.passStatement.andThen fun _ u _ => follows_executeOptional hexec u

include hexec in
/-- A block follows its counted statements. -/
theorem follows_block (s : State σ) :
    Follows m s.position [.counted .statement] (· = .normal) (block m execute) s := by
  refine .counted fun number q => .openScope (.inScope ?_)
  exact Follows.sequence hexec number { s with
    position := q
    store := (s.store.newChild s.scope).2
    scope := (s.store.newChild s.scope).1 }

include heval in
/-- A declared variable follows the fields of its declaration. -/
theorem follows_declare (s : State σ) :
    Follows m s.position [.raw 1, .symbol, .optional .expression] (· = .normal)
      (declare m evaluate) s := by
  refine Follows.byte.andThen fun flag t _ => Follows.symbol.andThen fun name u _ => ?_
  exact (follows_evaluateOptional heval u).andThen fun value v _ =>
    follows_declared name (fun _ h => nomatch h) fun _ _ h => nomatch h

include heval in
/-- An assignment follows its fields, also where the variable refuses the value. -/
theorem follows_assign (s : State σ) :
    Follows m s.position [.symbol, .expression] (· = .normal) (assign m evaluate) s := by
  refine Follows.symbol.andThen fun name t _ => (follows_resolve name).andThen fun cell u _ => ?_
  refine (follows_read cell).andThen fun binding v _ => ?_
  cases binding with
  | «variable» constant old =>
    cases constant with
    -- A constant refuses the value before it is evaluated.
    | true => exact follows_fail id
    | false =>
      refine (follows_evaluateValue heval v).andThen fun value w _ => ?_
      exact .of_ok (t := { w with store := w.store.write cell (.variable false value) }) rfl
        (fun h => h.write cell false value) (.pure fun _ => passes_nil.2 rfl)
  | _ => exact follows_fail id

include hexec in
/-- The step of a loop is followed by an optional statement, also when it leaves the loop. -/
theorem follows_loopStep (s : State σ) :
    Follows m s.position [.optional .statement] (fun flow => flow = .normal ∨ flow = .breakLoop)
      (loopStep m execute) s := by
  refine .of_ok (Exec.position_eq s) id ?_
  refine (follows_executeOptional hexec s).bindOr (fun flow t _ hflow => ?_)
    fun flow t _ hflow => ?_
  · rw [hflow]
    exact .return_nil
  · cases flow with
    | normal => exact absurd rfl hflow
    | breakLoop =>
      -- The step has been left halfway; it is passed over from its beginning.
      refine .of_ok (Exec.seek_eq t s.position) id ?_
      exact (Follows.passOptionalStatement (s := { t with position := s.position })).andThen
        fun _ _ _ => .return_nil
    | returnValue value => exact .pure fun h => by simp at h

include hexec heval in
/-- The last turn of a loop is followed by everything behind the first statement, however it
ends. -/
theorem follows_loopTurn (start : Nat) (s : State σ) :
    Follows m start [.expression, .statement, .optional .statement]
      (fun next => ∃ flow, flow = .normal ∧ next = some flow)
      (loopTurn m execute evaluate start) s := by
  refine .of_ok (Exec.seek_eq s start) id ?_
  refine (follows_condition heval { s with position := start }).andThen fun holds t _ => ?_
  cases holds with
  | true =>
    refine .of_ok (Exec.position_eq t) id ?_
    refine (hexec t).bindOr (fun flow u _ hflow => ?_) fun flow u _ hflow => ?_
    · rw [hflow]
      refine (follows_loopStep hexec u).bind (fun last v _ hlast => ?_) fun last v _ hlast => ?_
      · rcases hlast with rfl | rfl
        -- After a step to its end there is another turn, which is not the last one.
        · exact .pure fun h => by simp at h
        · exact .return_nil
      · cases last with
        | returnValue value => exact .pure (by simp)
        | _ => simp at hlast
    · cases flow with
      | normal => exact absurd rfl hflow
      | breakLoop =>
        -- The body has been left halfway; it is passed over, and the step is executed.
        refine .of_ok (Exec.seek_eq u t.position) id ?_
        refine (Follows.passStatement (s := { u with position := t.position })).andThen
          fun _ v _ => ?_
        refine (follows_loopStep hexec v).bind (fun last w _ hlast => ?_) fun last w _ hlast => ?_
        · rcases hlast with rfl | rfl <;> exact .return_nil
        · cases last with
          | returnValue value => exact .pure (by simp)
          | _ => simp at hlast
      | returnValue value => exact .pure fun h => by simp at h
  | false =>
    refine Follows.passStatement.andThen fun _ u _ => ?_
    exact Follows.passOptionalStatement.andThen fun _ _ _ => .return_nil

include hexec heval in
/-- A loop follows its fields, whatever its turns do. -/
theorem follows_loop (turns : Nat) (s : State σ) :
    Follows m s.position
      [.optional .statement, .expression, .statement, .optional .statement] (· = .normal)
      (loop m execute evaluate turns) s := by
  refine .openScope (.inScope ?_)
  refine (follows_executeOptional hexec { s with
    store := (s.store.newChild s.scope).2
    scope := (s.store.newChild s.scope).1 }).bind (fun flow t _ hflow => ?_)
      fun flow t _ hflow => ?_
  · rw [hflow]
    -- Every turn begins at the condition again, which stands where the first one begins.
    refine .of_ok (Exec.position_eq t) id ?_
    exact Follows.iterate (follows_loopTurn hexec heval t.position) turns t
  · cases flow with
    | normal => exact absurd rfl hflow
    | breakLoop => exact .pure hflow
    | returnValue value => exact .pure hflow

/-- A declared function follows the fields of its declaration, and its body has been passed
over. -/
theorem follows_declareFunction (s : State σ) :
    Follows m s.position [.symbol, .symbols, .statement] (· = .normal) (declareFunction m) s := by
  refine Follows.symbol.andThen fun name t _ => .symbols fun number q => ?_
  refine .openScope ?_
  have hparam : ∀ closure, ∀ u : State σ, Follows m u.position [.symbol] (fun _ => True) (do
      let param ← Exec.decode (Decoder.symbol m.program.image)
      Exec.bindIn m.program.names closure param .uninitialized
      return param) u :=
    fun closure u => Follows.symbol.andThen fun param v _ =>
      (follows_bindIn closure param (by simp [Binding.uninitialized])
        (by simp [Binding.uninitialized])).andThen fun _ _ _ => .return_nil
  refine (Follows.collectSymbols (hparam _) number { t with
    position := q
    store := (t.store.newChild t.scope).2 }).andThen fun params u _ => ?_
  refine .of_ok (Exec.position_eq u) id (Follows.passStatement.andThen fun _ v hpass => ?_)
  -- This is what keeps the store sound: a body is bound only behind a passage over it.
  have hbody : ∃ r, Passes m.program.image [.statement] u.position r := by
    cases hbody : Decoder.passStatement m.program.image u.position with
    | ok _ r => exact ⟨r, passStatement_eq_ok.1 hbody⟩
    | error e r =>
      rw [Exec.decode_of_error u hbody] at hpass
      cases hpass
  refine .of_ok (Exec.qualify_eq v name) id ?_
  exact follows_declared name (fun f h _ => by cases h; exact hbody) fun _ _ h => nomatch h

include heval in
/-- A statement that returns follows its optional expression. -/
theorem follows_returnValue (s : State σ) :
    Follows m s.position [.optional .expression] (· = .normal) (returnValue m evaluate) s := by
  rw [← List.append_nil [Field.optional .expression]]
  exact (follows_evaluateOptional heval s).andThen fun _ _ _ => .return_nil

/-- A declared class follows the fields of its declaration. -/
theorem follows_declareClass (s : State σ) :
    Follows m s.position [.symbol, .counted .statement, .counted .statement] (· = .normal)
      (declareClass m) s := by
  refine Follows.symbol.andThen fun name t _ => Follows.members.andThen fun fields u _ => ?_
  refine Follows.members.andThen fun methods v _ => .of_ok (t := v) rfl id ?_
  refine .of_ok (Exec.qualify_eq v name) id ?_
  exact follows_declared name (fun _ h => nomatch h) fun _ _ h => nomatch h

include hexec in
/-- Members of a module follow the counted statements that they are. -/
theorem follows_moduleMembers (s : State σ) :
    Follows m s.position [.counted .statement] (fun _ => True) (moduleMembers m execute) s := by
  refine .counted fun number q => ?_
  rw [← List.append_nil [Field.nodes .statement number]]
  refine (Follows.sequence hexec number { s with position := q }).bind
    (fun flow t _ hflow => ?_) fun flow t _ hflow => ?_
  · rw [hflow]
    exact .return_nil
  · cases flow with
    | normal => exact absurd rfl hflow
    | breakLoop => exact .fail id
    | returnValue value => exact .fail id

include hexec in
/-- A declared module follows the fields of its declaration. -/
theorem follows_declareModule (s : State σ) :
    Follows m s.position [.symbol, .counted .statement, .counted .statement] (· = .normal)
      (declareModule m execute) s := by
  refine Follows.symbol.andThen fun name t _ => ?_
  refine .openScope ?_
  -- The declaration behind the members follows no fields.
  rw [← List.append_nil [Field.counted .statement, .counted .statement]]
  refine Follows.andThen (.inModule (.inScope ?_)) fun _ u _ => ?_
  · exact (follows_moduleMembers hexec { t with
      store := (t.store.newChild t.scope).2
      scope := (t.store.newChild t.scope).1
      modules := t.modules ++ [name] }).andThen fun _ v _ => follows_moduleMembers hexec v
  · refine .of_ok (Exec.qualify_eq u name) id ?_
    exact follows_declared name (fun _ h => nomatch h) fun _ _ h => nomatch h

/-- A registered function is bound without reading bytes. -/
theorem follows_bindHost (source target : Symbol) :
    Follows m s.position [] (· = .normal) (bindHost m source target) s := by
  rw [bindHost]
  cases m.program.names.get? source with
  | none => exact follows_fail id
  | some name =>
    dsimp only
    cases hhost : m.hosts.get? name with
    | none => exact follows_fail id
    | some f =>
      refine .of_ok (Exec.qualify_eq s target) id ?_
      refine follows_declared target (fun _ h => nomatch h) fun _ g h _ => ?_
      cases h
      exact List.mem_of_find?_eq_some hhost

/-- An import follows its symbols. -/
theorem follows_importHost (s : State σ) :
    Follows m s.position [.symbol, .optionalSymbol] (· = .normal) (importHost m) s := by
  rw [importHost_eq]
  refine Follows.symbol.andThen fun source t _ => .optionalSymbol ?_ ?_
  · exact Follows.symbol.andThen fun target _ _ => follows_bindHost source target
  · exact follows_bindHost (s := { t with position := t.position + 1 }) source source

include hexec heval in
/-- The execution for an opcode follows the layout of the opcode. -/
theorem follows_statementOf (turns : Nat) (op : StatementOp) (s : State σ) :
    Follows m s.position op.layout (· = .normal) (statementOf m execute evaluate turns op) s := by
  cases op with
  | print => exact follows_print heval s
  | branch => exact follows_branch hexec heval s
  | block => exact follows_block hexec s
  | declare => exact follows_declare heval s
  | assign => exact follows_assign heval s
  | loop => exact follows_loop hexec heval turns s
  -- A break has no fields, and it does not go on either.
  | breakLoop => exact .pure fun h => by cases h
  | function => exact follows_declareFunction s
  | call =>
    rw [← List.append_nil (StatementOp.layout .call)]
    exact (follows_call hexec heval s).andThen fun _ _ _ => .return_nil
  | returnValue => exact follows_returnValue heval s
  | classDecl => exact follows_declareClass s
  | module => exact follows_declareModule hexec s
  | importHost => exact follows_importHost s
  | reserved => exact follows_fail id

include hexec heval in
/-- The statement at the position follows a statement. -/
theorem follows_statement (turns : Nat) (s : State σ) :
    Follows m s.position [.statement] (· = .normal) (statement m execute evaluate turns) s := by
  refine .of_ok (Exec.position_eq s) id (.mapError (fun _ => rfl) ?_)
  refine follows_countStatement.andThen fun _ t _ => .node (fun byte hbyte => ?_) ?_
  · cases hop : StatementOp.ofByte? byte with
    | none => exact ⟨_, rfl⟩
    | some op => simp [Node.layout?, hop] at hbyte
  · intro byte fields hbyte u
    cases hop : StatementOp.ofByte? byte with
    | none => simp [Node.layout?, hop] at hbyte
    | some op =>
      simp only [Node.layout?, hop, Option.map_some, Option.some.injEq] at hbyte
      subst hbyte
      exact follows_statementOf hexec heval turns op u

end Statements

end Bytewalk.Machine
