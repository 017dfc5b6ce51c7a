import Bytewalk.Machine.Run
import Bytewalk.Proofs.Machine.Lockstep
import Bytewalk.Proofs.Tree.DeclarationSimulation

/-!
# The machine runs programs as trees

With the same number of steps, the machine and the evaluator of trees execute every statement and
evaluate every expression alike: `execute_simulates` and `evaluate_simulates`. A whole run of the
machine ends as the evaluation of as many statements of the program: `Scene.outcomes_topLevel`.
-/

namespace Bytewalk.Tree

variable {σ : Type} {c : Scene σ}

/-! ## Statements and expressions -/

section Statement

variable {ctx : Context} {a : Address} {p : Nat} {execute : Exec σ Flow}
  {execute' : Context → Address → Stmt → Eval σ Flow} {evaluate : Exec σ Operand}
  {evaluate' : Context → Expr → Eval σ Operand}
  (hexec : c.Executes execute execute') (heval : c.Evaluates evaluate evaluate')

include hexec heval in
/-- Behind its opcode a statement is executed as its tree. -/
theorem simulates_statementOf (turns : Nat) {s : Stmt} (h : Placed c.image c.program a s) :
    ∃ op bytes, s.encode = StatementOp.byte op :: bytes ∧
      Simulates c ctx (offset c.program a + 1) (Ends (offset c.program a + s.encode.length))
        (Machine.statementOf c.setup execute evaluate turns op)
        (statementOf c.trees execute' evaluate' turns ctx a s.normalize) := by
  have hbytes := h.holds
  cases h.encodable with
  | @print value hvalue =>
    have hend : offset c.program a + (Stmt.print value).encode.length =
        offset c.program a + 1 + value.encode.length := by
      rw [Stmt.encode, List.length_cons]
      omega
    exact ⟨.print, _, rfl, hend ▸ simulates_print heval hbytes.tail hvalue⟩
  | branch htest _ _ => exact ⟨.branch, _, rfl, simulates_branch hexec heval htest h⟩
  | block hlength _ => exact ⟨.block, _, rfl, simulates_block hexec hlength h⟩
  | @declare constant symbol initial hinitial =>
    have hend : offset c.program a + (Stmt.declare constant symbol initial).encode.length =
        offset c.program a + 1 + 1 + 4 + (Expr.encodeOptional initial).length := by
      simp only [Stmt.encode, List.length_cons, List.length_append, Word.length_ofSymbol]
      omega
    exact ⟨.declare, _, rfl, hend ▸ simulates_variable heval hinitial hbytes.tail⟩
  | @assign symbol value hvalue =>
    have hend : offset c.program a + (Stmt.assign symbol value).encode.length =
        offset c.program a + 1 + 4 + value.encode.length := by
      simp only [Stmt.encode, List.length_cons, List.length_append, Word.length_ofSymbol]
      omega
    exact ⟨.assign, _, rfl, hend ▸ simulates_assign heval hvalue hbytes.tail⟩
  | loop _ htest _ _ => exact ⟨.loop, _, rfl, simulates_loop hexec heval turns htest h⟩
  | breakLoop => exact ⟨.breakLoop, [], rfl, .pure ⟨rfl, fun h => by cases h⟩⟩
  | function hlength _ => exact ⟨.function, _, rfl, simulates_declareFunction hlength h⟩
  | @call callee args hlength hargs =>
    refine ⟨.call, _, rfl, ?_⟩
    refine (simulates_call hexec heval hlength hargs hbytes.tail).andThen fun _ => ?_
    refine .pure ⟨rfl, fun _ => ?_⟩
    simp only [Stmt.encode, List.length_cons, List.length_append, Word.length_ofSymbol,
      Word.length_ofCount]
    omega
  | @returnValue value hvalue =>
    refine ⟨.returnValue, _, rfl, ?_⟩
    refine (simulates_evaluateOptional heval hbytes.tail hvalue).andThen fun v => ?_
    exact .pure ⟨rfl, fun h => by cases h⟩
  | @classDecl symbol fields methods hfields _ hmethods _ =>
    have hmembers :
        HasMembers (.classDecl symbol fields methods) .classDecl symbol fields methods :=
      ⟨rfl, fun _ => rfl, fun _ => rfl, fun _ => rfl, fun _ => rfl, hfields, hmethods⟩
    exact ⟨.classDecl, _, rfl, simulates_declareClass hmembers h⟩
  | @module symbol fields methods hfields _ hmethods _ =>
    have hmembers : HasMembers (.module symbol fields methods) .module symbol fields methods :=
      ⟨rfl, fun _ => rfl, fun _ => rfl, fun _ => rfl, fun _ => rfl, hfields, hmethods⟩
    exact ⟨.module, _, rfl, simulates_declareModule hmembers h hexec⟩
  | @importHost symbol target htarget =>
    have hend : offset c.program a + (Stmt.importHost symbol target).encode.length =
        offset c.program a + 1 + 4 + ((target.map Word.ofSymbol).getD [0]).length := by
      simp only [Stmt.encode, List.length_cons, List.length_append, Word.length_ofSymbol]
      omega
    exact ⟨.importHost, _, rfl, hend ▸ simulates_importHost htarget hbytes.tail⟩

/-- A statement is counted alike, or refused by the same limit. -/
theorem simulates_countStatement :
    Simulates c ctx p (At p) (Machine.countStatement c.setup) (countStatement c.trees) := by
  rw [Simulates]
  intro w hw
  have hcounted : c.Sound { w with executed := w.executed + 1 } := hw
  rcases Machine.countStatement_cases c.setup (c.state ctx p w) with hlt | ⟨limit, hfuel, hle⟩
  · have htree : countStatement c.trees w = .ok () { w with executed := w.executed + 1 } := by
      simp only [countStatement]
      cases hfuel : c.trees.config.fuel with
      | none => rfl
      | some limit => exact if_neg (Nat.not_lt.2 (hlt limit hfuel))
    rw [Machine.countStatement_of_lt hlt, htree]
    exact .ok (q := p) hcounted ⟨rfl, rfl⟩
  · have hfuel' : c.trees.config.fuel = some limit := hfuel
    have htree : countStatement c.trees w =
        .error (.failed { cause := .limitExceeded (.fuel limit) })
          { w with executed := w.executed + 1 } := by
      simp only [countStatement, hfuel']
      exact if_pos (Nat.lt_succ_of_le hle)
    rw [Machine.countStatement_of_le hfuel hle, htree]
    exact .error (q := p) (w := { w with executed := w.executed + 1 }) (.failed rfl .none rfl)

omit hexec heval in
/-- Where both stop for the same reason, they still do after a statement has been blamed. -/
theorem Stop.Fits.blaming {s : Stmt} (h : Placed c.image c.program a s) {e : Error}
    {failure : Failure} (hfits : Stop.Fits c (.failed e) (.failed failure)) :
    Stop.Fits c (.failed (e.atOffset (offset c.program a))) (.failed (failure.blaming a)) := by
  cases hfits with
  | failed hcause hblamed hframes =>
    refine .failed hcause ?_ ?_
    · rw [Error.offset_atOffset, Failure.blaming]
      generalize failure.blame = blame at hblamed ⊢
      generalize e.offset = place at hblamed ⊢
      -- Whoever has been blamed already stays to blame.
      cases hblamed with
      | none => exact .some (.statement h)
      | some hinner => exact .some hinner
    · rw [Error.frames_atOffset, hframes]
      rfl

include hexec heval in
/-- A statement is executed as its tree, and blamed where the tree is. -/
theorem simulates_statement (turns : Nat) {s : Stmt} (h : Placed c.image c.program a s) :
    Simulates c ctx (offset c.program a) (Ends (offset c.program a + s.encode.length))
      (Machine.statement c.setup execute evaluate turns)
      (statement c.trees execute' evaluate' turns ctx a s.normalize) := by
  obtain ⟨op, bytes, hencode, hstatement⟩ := simulates_statementOf hexec heval turns h
  have hbytes := h.holds
  rw [hencode] at hbytes
  refine .position (.mapError (fun _ _ => .blaming h)
    (simulates_countStatement.andThen fun _ => ?_))
  refine .decode (Decoder.byte_of_holds hbytes) ?_
  rw [StatementOp.ofByte?_byte]
  exact hstatement

end Statement

/-! ## Runs -/

/-- With the same number of steps the machine and the evaluator go in lockstep. -/
private theorem lockstep (c : Scene σ) (n : Nat) :
    c.Executes (Machine.execute c.setup n) (execute c.trees n) ∧
      c.Evaluates (Machine.evaluate c.setup n) (evaluate c.trees n) := by
  -- The steps bound statements and expressions together, since calls lead from these to those.
  induction n with
  | zero =>
    constructor
    · exact fun _ _ _ _ => Simulates.exhaust.congr (fun _ => rfl) fun _ => rfl
    · exact fun _ _ _ _ _ => Simulates.exhaust.congr (fun _ => rfl) fun _ => rfl
  | succ n ih =>
    obtain ⟨hexec, heval⟩ := ih
    constructor
    · intro ctx a s h
      exact (simulates_statement hexec heval n h).congr (fun _ => rfl) fun _ => rfl
    · intro ctx p e hbytes he
      exact (simulates_expression hexec heval he hbytes).congr (fun _ => rfl) fun _ => rfl

/-- The machine executes every statement of the program as its tree. -/
theorem execute_simulates (c : Scene σ) (n : Nat) :
    c.Executes (Machine.execute c.setup n) (execute c.trees n) :=
  (lockstep c n).1

/-- The machine evaluates every expression as its tree. -/
theorem evaluate_simulates (c : Scene σ) (n : Nat) :
    c.Evaluates (Machine.evaluate c.setup n) (evaluate c.trees n) :=
  (lockstep c n).2

/-- Statements that are laid out up to the end of the code run as their trees. -/
theorem topLevel_simulates {execute : Exec σ Flow}
    {execute' : Context → Address → Stmt → Eval σ Flow} (hexec : c.Executes execute execute')
    {ctx : Context} {p : Nat} {body : List Stmt} {items : List (Address × Stmt)}
    (h : c.Lays p body items)
    (hend : p + (Stmt.encodeAll body).length = c.setup.program.codeEnd) (turns : Nat) :
    Simulates c ctx p (fun _ _ _ => True) (Machine.topLevel c.setup execute turns)
      (topLevelWithin (execute' ctx) turns items) := by
  induction h generalizing turns with
  | @nil p =>
    have hpos : ¬ p < c.setup.program.codeEnd := Nat.not_lt.2 (Nat.le_of_eq hend.symm)
    rw [topLevelWithin_of_length_le (Nat.zero_le turns)]
    cases turns with
    | zero =>
      rw [Machine.topLevel_zero]
      exact .position (if_neg hpos ▸ .pure trivial)
    | succ turns =>
      rw [Machine.topLevel_succ]
      exact .position (if_neg hpos ▸ .pure trivial)
  | @cons a s rest items hplaced hrest ih =>
    rw [Stmt.encodeAll, List.length_append, ← Nat.add_assoc] at hend
    have hstart : offset c.program a < c.setup.program.codeEnd := by
      -- A statement takes a byte at least, so that the end has not been reached before it.
      have hpos := s.length_encode_pos
      omega
    cases turns with
    | zero =>
      rw [Machine.topLevel_zero]
      exact .position (if_pos hstart ▸ .exhaust)
    | succ turns =>
      rw [Machine.topLevel_succ, topLevelWithin_cons]
      refine .position ?_
      rw [if_pos hstart]
      refine (hexec ctx a s hplaced).bind fun flow _ q hends => ?_
      obtain ⟨rfl, hq⟩ := hends
      -- Where the statement does not end the run, the machine stands before the next one.
      cases flow with
      | normal =>
        rw [hq rfl]
        exact ih hend turns
      | breakLoop | returnValue => exact .mapError (fun _ _ => .blaming hplaced) .fail

/-- Before the first statement the machine is in the state that stands for the first world. -/
theorem Scene.state_initial (c : Scene σ) (host : σ) :
    c.state .root codeStart (World.initial host) = .initial c.output c.echoed host := by
  simp [Scene.state, World.initial, State.initial, Context.root, Store.map, Store.newRoot,
    Store.empty]

/-- The statements of a program are laid out from the beginning of the code on. -/
theorem Scene.lays_program (c : Scene σ) :
    c.Lays codeStart c.program
      (located (fun i => { index := i }) (Stmt.normalizeAll c.program)) := by
  refine c.lays_located (fun i s hs => .root c.holds c.encodable hs) fun i s hs => ?_
  simp [offset, hs, descentOffset]

/-- From the first statement on the machine and the evaluator go in lockstep. -/
theorem Scene.outcomes_topLevel (c : Scene σ) {execute : Exec σ Flow}
    {execute' : Context → Address → Stmt → Eval σ Flow} (hexec : c.Executes execute execute')
    (hend : codeStart + (Stmt.encodeAll c.program).length = c.setup.program.codeEnd) (steps : Nat)
    (host : σ) :
    Outcomes c .root (fun _ _ _ => True)
      (Machine.topLevel c.setup execute steps (.initial c.output c.echoed host))
      (topLevelWithin (execute' .root) steps
        (located (fun i => { index := i }) (Stmt.normalizeAll c.program))
        (World.initial host)) := by
  have hsound : c.Sound (World.initial host) := fun cell b h => by
    rw [World.read?_initial] at h
    cases h
  have hrun : Simulates c .root codeStart (fun _ _ _ => True) _ _ :=
    topLevel_simulates hexec c.lays_program hend steps
  rw [Simulates] at hrun
  rw [← c.state_initial]
  exact hrun _ hsound

end Bytewalk.Tree
