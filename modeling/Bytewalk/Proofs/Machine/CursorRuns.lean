import Bytewalk.Proofs.Machine.CursorBounds
import Bytewalk.Proofs.Program.Format

/-!
# Runs keep their cursors near the image

What a tame mover does with expressions, statements and whole runs is what the machine does, since
every part keeps the limit.
-/

namespace Bytewalk

open Traversal

variable {σ : Type}

namespace Matches

variable {m : Setup σ} {μ : Mover σ} (hμ : μ.Tame m.program.image) {s : State σ}

/-! ## Expressions -/

section Expressions

variable {evaluate' evaluate : Exec σ Operand}
  (he : Matches m [.expression] (fun _ => True) evaluate' evaluate)
include he

theorem evaluateValue : Matches m [.expression] (fun _ => True)
    (Machine.evaluateValue evaluate') (Machine.evaluateValue evaluate) where
  agrees h := he.last h fun _ _ => rfl
  follows := Machine.follows_evaluateValue he.follows

theorem accessor : Matches m [.expression, .expression] (fun _ => True)
    (Machine.accessor evaluate') (Machine.accessor evaluate) where
  agrees h := he.andThen h fun operand _ ht =>
    (still fun _ => Machine.follows_moduleOf operand).andThen ht fun _ _ hu =>
      inScope (he.agrees (hu.still hu.sound rfl))
  follows := Machine.follows_accessor he.follows

include hμ

theorem evaluateOptional : Matches m [.optional .expression] (fun _ => True)
    (μ.evaluateOptional m evaluate') (Machine.evaluateOptional m evaluate) where
  agrees h := optional hμ h he.evaluateValue.agrees fun _ _ => rfl
  follows := Machine.follows_evaluateOptional he.follows

theorem unary : Matches m [.raw 1, .expression] (fun _ => True)
    (μ.unary m evaluate') (Machine.unary m evaluate) where
  agrees h := by
    refine (byte hμ).andThen h fun byte t ht => ?_
    cases UnaryOp.ofByte? byte with
    | none => rfl
    | some op => exact he.evaluateValue.last ht fun _ _ => rfl
  follows := Machine.follows_unary he.follows

theorem binary : Matches m [.raw 1, .expression, .expression] (fun _ => True)
    (μ.binary m evaluate') (Machine.binary m evaluate) where
  agrees h := by
    refine (byte hμ).andThen h fun byte t ht => ?_
    cases BinaryOp.ofByte? byte with
    | none => rfl
    | some op => exact he.andThen ht fun _ _ hu => he.last hu fun _ _ => rfl
  follows := Machine.follows_binary he.follows

/-- The expression at the position, given a call that matches. -/
theorem expression {call' call : Exec σ Value}
    (hcall : Matches m [.symbol, .counted .expression] (fun _ => True) call' call) :
    Matches m [.expression] (fun _ => True) (μ.expression m evaluate' call')
      (Machine.expression m evaluate call) where
  agrees h := by
    refine node hμ h (fun byte t hbyte => ?_) fun byte fields t hbyte ht => ?_
    · cases hop : ExpressionOp.ofByte? byte with
      | none => rfl
      | some op => simp [Node.layout?, hop] at hbyte
    · cases hop : ExpressionOp.ofByte? byte with
      | none => rfl
      | some op =>
        simp only [Node.layout?, hop, Option.map_some, Option.some.injEq] at hbyte
        subst hbyte
        cases op with
        | unary => exact (unary hμ he).last ht fun _ _ => rfl
        | binary => exact (binary hμ he).last ht fun _ _ => rfl
        | group => exact he.agrees ht
        | literal => exact (literal hμ).last ht fun _ _ => rfl
        | «variable» => exact (symbol hμ).last ht fun _ _ => rfl
        | call => exact hcall.last ht fun _ _ => rfl
        | accessor => exact he.accessor.agrees ht
  follows := Machine.follows_expression he.follows hcall.follows

end Expressions

/-! ## Calls -/

section Calls

variable {execute' execute : Exec σ Flow}
  (hx : Matches m [.statement] (· = .normal) execute' execute)
include hμ hx

/-- A body that can be passed over begins inside the image, and so the cursor may jump there. -/
theorem enter {f : Function} (hbody : ∃ q, Passes m.program.image [.statement] f.body q)
    (h : Sound m s.store) (frame : Scope) :
    Machine.enter m (do μ.jump f.body; execute') f frame s =
      Machine.enter m execute f frame s := by
  obtain ⟨q, hpass⟩ := hbody
  have hinside := Image.lt_size_of_byteAt_ne_zero hpass.byteAt_ne_zero
  have hready : Ready m [.statement] { s with
      position := f.body, scope := frame, modules := f.name.parent, depth := s.depth + 1 } :=
    ⟨h, reach_node_le_limit (Nat.le_of_lt hinside)⟩
  have hjump : μ.jump f.body = Exec.seek f.body :=
    hμ.jump (Nat.le_trans hready.position_le (Nat.le_add_right _ _))
  have hcall : Exec.inCall f.body frame f.name.parent (do μ.jump f.body; execute') s =
      Exec.inCall f.body frame f.name.parent execute s := by
    rw [Exec.inCall, Exec.inCall, hjump, bind_of_ok (Exec.seek_eq _ f.body), hx.agrees hready]
  rw [Machine.enter, Machine.enter]
  exact Exec.mapError_congr (bind_eq_bind hcall fun _ _ _ => rfl)

theorem invoke {f : Function} (hbody : ∃ q, Passes m.program.image [.statement] f.body q)
    (h : Sound m s.store) (args : List Value) :
    μ.invoke m execute' f args s = Machine.invoke m execute f args s := by
  rw [Mover.invoke, Machine.invoke_eq, Machine.invoke_eq]
  split
  · rw [Machine.withinDepth, Machine.withinDepth]
    split
    · rfl
    · refine bind_eq_bind rfl fun frame t hrun => ?_
      exact enter hμ hx hbody ((Machine.follows_openFrame f args).sound hrun h) frame
  · rfl

theorem call {evaluate' evaluate : Exec σ Operand}
    (he : Matches m [.expression] (fun _ => True) evaluate' evaluate) :
    Matches m [.symbol, .counted .expression] (fun _ => True) (μ.call m execute' evaluate')
      (Machine.call m execute evaluate) where
  agrees h := by
    refine (symbol hμ).andThen h fun callee t ht => counted hμ ht fun number u hu => ?_
    have hargs : Ready m ([.nodes .expression number] ++ []) u := hu
    refine (he.evaluateValue.collect number).andThen hargs fun args v hv => ?_
    refine (still fun _ => Machine.follows_resolve callee).andThen hv fun cell w hw => ?_
    rw [bind_of_ok (Exec.read_eq w cell), bind_of_ok (Exec.read_eq w cell)]
    cases hcell : w.store.read? cell with
    | none => rfl
    | some binding =>
      cases binding with
      -- A function was passed over when it was declared, and so its body stands in the image.
      | function f => exact invoke hμ hx (hw.sound.bodies cell f hcell) hw.sound args
      | _ => rfl
  follows := Machine.follows_call hx.follows he.follows

end Calls

/-! ## Statements -/

section Statements

variable {execute' execute : Exec σ Flow} {evaluate' evaluate : Exec σ Operand}
  (hx : Matches m [.statement] (· = .normal) execute' execute)
  (he : Matches m [.expression] (fun _ => True) evaluate' evaluate)

include he in
theorem condition : Matches m [.expression] (fun _ => True)
    (Machine.condition evaluate') (Machine.condition evaluate) where
  agrees h := he.evaluateValue.last h fun _ _ => rfl
  follows := Machine.follows_condition he.follows

include he in
theorem print : Matches m [.expression] (· = .normal)
    (Machine.print m evaluate') (Machine.print m evaluate) where
  agrees h := he.last h fun _ _ => rfl
  follows := Machine.follows_print he.follows

include hμ

include hx in
theorem executeOptional : Matches m [.optional .statement] (· = .normal)
    (μ.executeOptional m execute') (Machine.executeOptional m execute) where
  agrees h := optional hμ h hx.agrees fun _ _ => rfl
  follows := Machine.follows_executeOptional hx.follows

include hx he in
theorem branch : Matches m [.expression, .statement, .optional .statement] (· = .normal)
    (μ.branch m execute' evaluate') (Machine.branch m execute evaluate) where
  agrees h := by
    refine (condition he).andThen h fun holds t ht => ?_
    cases holds with
    | true =>
      refine hx.bind ht (fun flow u hflow hu => ?_) fun flow u hflow _ => ?_
      · subst hflow
        exact (passOptionalStatement hμ).last hu fun _ _ => rfl
      · cases flow with
        | normal => exact absurd rfl hflow
        | breakLoop | returnValue => rfl
    | false =>
      exact (passStatement hμ).andThen ht fun _ u hu => (executeOptional hμ hx).agrees hu
  follows := Machine.follows_branch hx.follows he.follows

include hx in
theorem block : Matches m [.counted .statement] (· = .normal)
    (μ.block m execute') (Machine.block m execute) where
  agrees h := counted hμ h fun number _ ht => openScope ht fun _ _ hu =>
    inScope ((hx.sequence number).agrees (hu.still hu.sound rfl))
  follows := Machine.follows_block hx.follows

include he in
theorem declare : Matches m [.raw 1, .symbol, .optional .expression] (· = .normal)
    (μ.declare m evaluate') (Machine.declare m evaluate) where
  agrees h := (byte hμ).andThen h fun _ _ ht => (symbol hμ).andThen ht fun _ _ hu =>
    (evaluateOptional hμ he).last hu fun _ _ => rfl
  follows := Machine.follows_declare he.follows

include he in
theorem assign : Matches m [.symbol, .expression] (· = .normal)
    (μ.assign m evaluate') (Machine.assign m evaluate) where
  agrees h := by
    refine (symbol hμ).andThen h fun name t ht => ?_
    refine (still fun _ => Machine.follows_resolve name).andThen ht fun cell u hu => ?_
    refine (still fun _ => Machine.follows_read cell).andThen hu fun binding v hv => ?_
    cases binding with
    | «variable» constant old =>
      cases constant with
      | true => rfl
      | false => exact he.evaluateValue.last hv fun _ _ => rfl
    | _ => rfl
  follows := Machine.follows_assign he.follows

include hx in
theorem loopStep :
    Matches m [.optional .statement] (fun flow => flow = .normal ∨ flow = .breakLoop)
      (μ.loopStep m execute') (Machine.loopStep m execute) where
  agrees {s} h := by
    have hbegin : μ.jump s.position = Exec.seek s.position :=
      hμ.jump (Nat.le_trans h.position_le (Nat.le_add_right _ _))
    have hstep : Ready m ([.optional .statement] ++ []) s := h
    change (μ.executeOptional m execute' >>= _) s = (Machine.executeOptional m execute >>= _) s
    refine (executeOptional hμ hx).bind hstep (fun flow t hflow _ => ?_)
      fun flow t hflow ht => ?_
    · subst hflow
      rfl
    · cases flow with
      | normal => exact absurd rfl hflow
      | breakLoop =>
        -- The step is passed over from its beginning.
        have hback : Ready m [.optional .statement] { t with position := s.position } :=
          ⟨ht, h.reach_le⟩
        change (μ.jump s.position >>= _) t = (Exec.seek s.position >>= _) t
        rw [hbegin, bind_of_ok (Exec.seek_eq t s.position),
          bind_of_ok (Exec.seek_eq t s.position)]
        exact (passOptionalStatement hμ).last hback fun _ _ => rfl
      | returnValue => rfl
  follows := Machine.follows_loopStep hx.follows

include hx he in
/-- A turn matches from wherever it is begun, since it begins by a jump to its condition. -/
theorem loopTurn {start : Nat}
    (hreach : reach m.program.image [.expression, .statement, .optional .statement] start ≤
      m.program.image.limit) (h : Sound m s.store) :
    μ.loopTurn m execute' evaluate' start s = Machine.loopTurn m execute evaluate start s := by
  have hready : Ready m [.expression, .statement, .optional .statement]
      { s with position := start } := ⟨h, hreach⟩
  have hjump : μ.jump start = Exec.seek start :=
    hμ.jump (Nat.le_trans hready.position_le (Nat.le_add_right _ _))
  rw [Mover.loopTurn, Machine.loopTurn, hjump, bind_of_ok (Exec.seek_eq s start),
    bind_of_ok (Exec.seek_eq s start)]
  refine (condition he).andThen hready fun holds t ht => ?_
  cases holds with
  | false =>
    exact (passStatement hμ).andThen ht fun _ u hu =>
      (passOptionalStatement hμ).last hu fun _ _ => rfl
  | true =>
    change (execute' >>= _) t = (execute >>= _) t
    refine hx.bind ht (fun flow u hflow hu => ?_) fun flow u hflow hu => ?_
    · subst hflow
      exact (loopStep hμ hx).last hu fun _ _ => rfl
    · cases flow with
      | normal => exact absurd rfl hflow
      | breakLoop =>
        -- The body is passed over from its beginning.
        have hback : Ready m [.statement, .optional .statement] { u with position := t.position } :=
          ⟨hu, ht.reach_le⟩
        have hbody : μ.jump t.position = Exec.seek t.position :=
          hμ.jump (Nat.le_trans ht.position_le (Nat.le_add_right _ _))
        change (μ.jump t.position >>= _) u = (Exec.seek t.position >>= _) u
        rw [hbody, bind_of_ok (Exec.seek_eq u t.position), bind_of_ok (Exec.seek_eq u t.position)]
        exact (passStatement hμ).andThen hback fun _ v hv =>
          (loopStep hμ hx).last hv fun _ _ => rfl
      | returnValue => rfl

include hx he in
theorem loop (turns : Nat) :
    Matches m [.optional .statement, .expression, .statement, .optional .statement] (· = .normal)
      (μ.loop m execute' evaluate' turns) (Machine.loop m execute evaluate turns) where
  agrees h := by
    refine openScope h fun scope t ht => inScope ?_
    refine (executeOptional hμ hx).bind (ht.still ht.sound rfl) (fun flow u hflow hu => ?_)
      fun flow u hflow _ => ?_
    · subst hflow
      have hfollows := Machine.follows_loopTurn hx.follows he.follows u.position
      exact iterate (fun v hv => loopTurn hμ hx he hu.reach_le hv)
        (fun v next w hrun hv => (hfollows v).sound hrun hv) turns hu.sound
    · cases flow with
      | normal => exact absurd rfl hflow
      | breakLoop | returnValue => rfl
  follows := Machine.follows_loop hx.follows he.follows turns

/-- A parameter is read and bound. -/
theorem parameter (closure : Scope) : Matches m [.symbol] (fun _ => True)
    (do
      let param ← μ.read (Decoder.symbol m.program.image)
      Exec.bindIn m.program.names closure param .uninitialized
      return param)
    (do
      let param ← Exec.decode (Decoder.symbol m.program.image)
      Exec.bindIn m.program.names closure param .uninitialized
      return param) where
  agrees h := (symbol hμ).last h fun _ _ => rfl
  follows _ := Follows.symbol.andThen fun param _ _ =>
    (Machine.follows_bindIn closure param (by simp [Binding.uninitialized])
      (by simp [Binding.uninitialized])).andThen fun _ _ _ => .return_nil

omit hμ in
/-- So many symbols are read alike as long as their end keeps the limit. -/
theorem collectSymbols {α : Type} {x' x : Exec σ α}
    (hx : Matches m [.symbol] (fun _ => True) x' x) (n : Nat) (h : Sound m s.store)
    (hend : 2 * (s.position + n * 4) ≤ m.program.image.limit) :
    Exec.collect x' n s = Exec.collect x n s := by
  induction n generalizing s with
  | zero => rfl
  | succ n ih =>
    -- The first symbol ends no further than all of them do.
    have hready : Ready m [.symbol] s := by
      refine ⟨h, ?_⟩
      simp only [reach, drift, overhang, Image.limit] at hend ⊢
      split <;> omega
    refine bind_eq_bind (hx.agrees hready) fun a t hrun => ?_
    have hposition := passes_raw.1 ((hx.follows s).passes hrun trivial)
    refine bind_eq_bind (ih ((hx.follows s).sound hrun h) ?_) fun _ _ _ => rfl
    omega

theorem declareFunction : Matches m [.symbol, .symbols, .statement] (· = .normal)
    (μ.declareFunction m) (Machine.declareFunction m) where
  agrees h := by
    -- The symbols are read one by one, but what is known of them is where the last one ends.
    refine (symbol hμ).andThen h fun name t ht => symbols hμ ht fun n u hsound hreach => ?_
    rw [bind_of_ok (Exec.openScope_eq u), bind_of_ok (Exec.openScope_eq u)]
    have hparams := parameter hμ (m := m) (u.store.newChild u.scope).1
    have hopened := hsound.newChild u.scope
    refine bind_eq_bind (collectSymbols hparams n hopened (Nat.le_trans le_reach hreach))
      fun params v hrun => ?_
    have hfollows := Follows.collectSymbols hparams.follows n
      { u with store := (u.store.newChild u.scope).2 }
    have hposition := passes_raw.1 (hfollows.passes hrun trivial)
    have hbody : Ready m [.statement] v :=
      ⟨hfollows.sound hrun hopened, hposition ▸ hreach⟩
    change (μ.read _ >>= _) v = (Exec.decode _ >>= _) v
    exact (passStatement hμ).last hbody fun _ _ => rfl
  follows := Machine.follows_declareFunction

include he in
theorem returnValue : Matches m [.optional .expression] (· = .normal)
    (μ.returnValue m evaluate') (Machine.returnValue m evaluate) where
  agrees h := (evaluateOptional hμ he).last h fun _ _ => rfl
  follows := Machine.follows_returnValue he.follows

theorem declareClass : Matches m [.symbol, .counted .statement, .counted .statement] (· = .normal)
    (μ.declareClass m) (Machine.declareClass m) where
  agrees h := (symbol hμ).andThen h fun _ _ ht => (members hμ).andThen ht fun _ _ hu =>
    (members hμ).last hu fun _ _ => rfl
  follows := Machine.follows_declareClass

include hx in
theorem moduleMembers : Matches m [.counted .statement] (fun _ => True)
    (μ.moduleMembers m execute') (Machine.moduleMembers m execute) where
  agrees h := counted hμ h fun number _ ht =>
    (hx.sequence number).last ht fun _ _ => rfl
  follows := Machine.follows_moduleMembers hx.follows

include hx in
theorem declareModule :
    Matches m [.symbol, .counted .statement, .counted .statement] (· = .normal)
      (μ.declareModule m execute') (Machine.declareModule m execute) where
  agrees h := by
    have hmembers := moduleMembers hμ hx
    refine (symbol hμ).andThen h fun name t ht => openScope ht fun scope u hu => ?_
    refine bind_eq_bind (inModule (inScope ?_)) fun _ _ _ => rfl
    exact hmembers.andThen (hu.still hu.sound rfl) fun _ v hv => hmembers.agrees hv
  follows := Machine.follows_declareModule hx.follows

theorem importHost : Matches m [.symbol, .optionalSymbol] (· = .normal)
    (μ.importHost m) (Machine.importHost m) where
  agrees h := by
    rw [Machine.importHost_eq]
    refine (symbol hμ).andThen h fun source t ht => optionalSymbol hμ ht (fun hu => ?_)
      fun _ => rfl
    exact (symbol hμ).last hu fun _ _ => rfl
  follows := Machine.follows_importHost

include hx he

theorem statementOf (turns : Nat) (op : StatementOp) : Matches m op.layout (· = .normal)
    (μ.statementOf m execute' evaluate' turns op)
    (Machine.statementOf m execute evaluate turns op) where
  agrees h := by
    cases op with
    | print => exact (print he).agrees h
    | branch => exact (branch hμ hx he).agrees h
    | block => exact (block hμ hx).agrees h
    | declare => exact (declare hμ he).agrees h
    | assign => exact (assign hμ he).agrees h
    | loop => exact (loop hμ hx he turns).agrees h
    | breakLoop => rfl
    | function => exact (declareFunction hμ).agrees h
    | call => exact (call hμ hx he).last h fun _ _ => rfl
    | returnValue => exact (returnValue hμ he).agrees h
    | classDecl => exact (declareClass hμ).agrees h
    | module => exact (declareModule hμ hx).agrees h
    | importHost => exact (importHost hμ).agrees h
    | reserved => rfl
  follows := Machine.follows_statementOf hx.follows he.follows turns op

theorem statement (turns : Nat) : Matches m [.statement] (· = .normal)
    (μ.statement m execute' evaluate' turns) (Machine.statement m execute evaluate turns) where
  agrees {s} h := by
    rw [Mover.statement, Machine.statement, bind_of_ok (Exec.position_eq s),
      bind_of_ok (Exec.position_eq s)]
    refine Exec.mapError_congr ?_
    refine (still fun _ => Machine.follows_countStatement).andThen h fun _ t ht => ?_
    refine node hμ ht (fun byte u hbyte => ?_) fun byte fields u hbyte hu => ?_
    · cases hop : StatementOp.ofByte? byte with
      | none => rfl
      | some op => simp [Node.layout?, hop] at hbyte
    · cases hop : StatementOp.ofByte? byte with
      | none => rfl
      | some op =>
        simp only [Node.layout?, hop, Option.map_some, Option.some.injEq] at hbyte
        subst hbyte
        exact (statementOf hμ hx he turns op).agrees hu
  follows := Machine.follows_statement hx.follows he.follows turns

end Statements

/-! ## Runs -/

include hμ

/-- Whole statements and expressions match, these and those together, since calls lead from
expressions to statements. -/
theorem execute_evaluate (n : Nat) :
    Matches m [.statement] (· = .normal) (μ.execute m n) (Machine.execute m n) ∧
      Matches m [.expression] (fun _ => True) (μ.evaluate m n) (Machine.evaluate m n) := by
  induction n with
  | zero =>
    exact ⟨⟨fun _ => rfl, Machine.follows_execute m 0⟩, fun _ => rfl, Machine.follows_evaluate m 0⟩
  | succ n ih =>
    obtain ⟨hx, he⟩ := ih
    rw [Mover.execute_succ, Mover.evaluate_succ, Machine.execute_succ, Machine.evaluate_succ]
    exact ⟨statement hμ hx he n, expression hμ he (call hμ hx he)⟩

omit hμ in
/-- Every statement of a run begins inside the image, and so the whole run matches. -/
theorem topLevel {execute' execute : Exec σ Flow}
    (hx : Matches m [.statement] (· = .normal) execute' execute)
    (hcode : m.program.codeEnd ≤ m.program.image.size) (n : Nat) (h : Sound m s.store) :
    Machine.topLevel m execute' n s = Machine.topLevel m execute n s := by
  induction n generalizing s with
  | zero => rfl
  | succ n ih =>
    rw [Machine.topLevel, Machine.topLevel]
    by_cases hstart : s.position < m.program.codeEnd
    · have hready : Ready m [.statement] s :=
        ⟨h, reach_node_le_limit (Nat.le_trans (Nat.le_of_lt hstart) hcode)⟩
      simp only [hstart, ↓reduceIte, hx.agrees hready]
      cases hrun : execute s with
      | error stop t => rfl
      | ok flow t =>
        cases flow with
        | normal => exact ih ((hx.follows s).sound hrun h)
        | breakLoop | returnValue => rfl
    · simp only [hstart, ↓reduceIte]

end Matches

/-- A watch for positions behind the limit never stops a run that begins inside the image. -/
theorem Setup.cursorStays_of_le {m : Setup σ} (hcode : m.program.codeEnd ≤ m.program.image.size)
    {s : State σ} (hstart : s.position ≤ m.program.image.size) (h : Sound m s.store) :
    m.CursorStays (fun q => 2 * q ≤ m.program.image.limit + 2) s := by
  intro watch hwatch steps
  -- Up to the limit the watch says nothing, and a run with such a watch matches the plain one.
  have hnone : ∀ p, 2 * p ≤ m.program.image.limit + 2 → watch p = none := fun p hp =>
    Option.not_isSome_iff_eq_none.1 fun hsome => hwatch p hsome hp
  have hμ : (Mover.watched watch : Mover σ).Tame m.program.image := Mover.tame_watched hnone
  have hjump : (Mover.watched watch).jump s.position = (Exec.seek s.position : Exec σ Unit) := by
    refine hμ.jump ?_
    rw [Image.limit]
    omega
  rw [Mover.run, hjump, bind_of_ok (Exec.seek_eq s s.position), runFrom]
  exact Matches.topLevel (Matches.execute_evaluate hμ steps).1 hcode steps h

/-- A watch for fewer positions stops no more runs. -/
theorem Setup.CursorStays.mono {m : Setup σ} {P Q : Nat → Prop} {s : State σ}
    (h : m.CursorStays P s) (hPQ : ∀ q, P q → Q q) : m.CursorStays Q s :=
  fun watch hwatch => h watch fun q hsome hP => hwatch q hsome (hPQ q hP)

/-! ## Offsets -/

/-- The offset is no further than twice the size of the image and thirteen bytes. Where 63 bits
address the image, 64 bits hold the offset. -/
def Image.InReach (image : Image) (q : Nat) : Prop :=
  q ≤ 2 * image.size + 13 ∧ (image.size < 2 ^ 63 → q < 2 ^ 64)

theorem Image.inReach_of_le {image : Image} {q : Nat} (h : 2 * q ≤ image.limit + 2) :
    image.InReach q := by
  rw [limit] at h
  exact ⟨by omega, fun hsize => by omega⟩

/-- Passes over a part of the kind. -/
def Node.pass (kind : Node) (image : Image) : Decoder Unit :=
  match kind with
  | .statement => Decoder.passStatement image
  | .expression => Decoder.passExpression image

theorem Node.pass_eq (kind : Node) (image : Image) (p : Nat) :
    kind.pass image p = Traversal.traverse image [.nodes kind 1] p := by
  cases kind <;> rfl

/-- A walk over a part that begins inside the image stays in reach. -/
theorem inReach_walk {image : Image} {kind : Node} {p : Nat} (hp : p ≤ image.size) (n : Nat) :
    image.InReach (walk image n (.ahead [.nodes kind 1] p)).position := by
  have hwithin : (Stage.ahead [.nodes kind 1] p).Within image image.limit :=
    reach_node_le_limit hp
  exact Image.inReach_of_le (hwithin.walk n).position_le

/-- A text that does not fit in the image is refused behind its length. -/
theorem Decoder.offset_of_text_error {image : Image} {p q : Nat} {e : Error} :
    (shortText image p = .error e q → q = p + 1) ∧ (longText image p = .error e q → q = p + 4) := by
  have hbody : ∀ {start length r q}, (textBody image start length >>= fun bytes =>
      pure (Text.Latin.decode bytes)) r = .error e q → q = r := by
    intro start length r q h
    by_cases hfits : image.remaining r < length
    · have herror : ∃ e, textBody image start length r = .error e r :=
        ⟨_, by rw [textBody, if_pos hfits, fail_eq]⟩
      obtain ⟨e', herror⟩ := herror
      rw [bind_of_error herror] at h
      cases h
      rfl
    · have hok : ∃ bytes, textBody image start length r = .ok bytes (r + length) :=
        ⟨_, by rw [textBody, if_neg hfits]⟩
      obtain ⟨bytes, hok⟩ := hok
      rw [bind_of_ok hok] at h
      cases h
  exact ⟨fun h => hbody h, fun h => hbody h⟩

/-- A counted list fits in the image with all its elements. -/
theorem Decoder.mul_le_size_of_count {image : Image} {least n p q : Nat}
    (h : count image least p = .ok n q) : n * least ≤ image.size := by
  obtain ⟨-, hfits, -⟩ := count_eq_ok.1 h
  rw [Image.remaining] at hfits
  omega

/-- Every offset of an image can be computed. A pass over a statement or an expression that begins
inside the image, or at its end, goes forwards and stays in reach all the way to the end that it
comes to in so many steps, also where it fails. Every position of a run of the loaded image is in
reach, whatever the host functions and the limits. What a count promises fits in the image, however
large its elements are said to be, and a count or a text is refused right behind the bytes of its
number, so that these can be taken back from the offset. -/
theorem cursor_bounded (image : Image) :
    (∀ (kind : Node) (p : Nat), p ≤ image.size →
      Monotone (fun n => (walk image n (.ahead [.nodes kind 1] p)).position) ∧
      (∀ n, image.InReach (walk image n (.ahead [.nodes kind 1] p)).position) ∧
      ∀ n, 7 * (image.size - p) + 2 ≤ n →
        walk image n (.ahead [.nodes kind 1] p) = .ended (kind.pass image p)) ∧
    (∀ program, Program.load image = .ok program →
      ∀ (σ : Type) (hosts : Registry σ) (config : Config) (output echoed : Array String) (host : σ),
        ({ program, hosts, config } : Setup σ).CursorStays image.InReach
          (.initial output echoed host)) ∧
    (∀ least p, Decoder.offset (Decoder.count image least p) = p + 4 ∧
      ∀ n q, Decoder.count image least p = .ok n q → n * least ≤ image.size) ∧
    ∀ p e q, (Decoder.shortText image p = .error e q → q = p + 1) ∧
      (Decoder.longText image p = .error e q → q = p + 4) := by
  refine ⟨fun kind p hp => ⟨?_, inReach_walk hp, fun n hn => ?_⟩, ?_, fun least p => ⟨?_, ?_⟩, ?_⟩
  · exact Stage.monotone_position_walk image _
  · rw [kind.pass_eq]
    exact walk_node image hn
  · intro program hload σ hosts config output echoed host
    obtain ⟨himage, hstart, hcode, -⟩ := Program.load_eq_ok.1 hload
    subst himage
    have hstays := Setup.cursorStays_of_le (m := { program, hosts, config }) hcode
      (s := .initial output echoed host) (Nat.le_trans hstart hcode)
      (Sound.initial _ output echoed host)
    exact hstays.mono fun _ => Image.inReach_of_le
  · exact offset_count image least p
  · exact fun n q => Decoder.mul_le_size_of_count
  · exact fun p e q => Decoder.offset_of_text_error

/-- The image of a class whose first byte is the last one of the image. -/
def Image.cutOff : Image :=
  #[5, 0, 0, 0, 0x0B]

/-- The class takes twelve bytes behind the end of the image when it is passed over, and also when
it is declared. A watch for offsets out of reach, which are those behind twice the size and thirteen
bytes, does not stop the run. -/
theorem cursor_bounded_cutOff :
    let program : Program := { image := .cutOff, codeEnd := 5, names := {} }
    let m : Setup Unit := { program, hosts := {}, config := {} }
    let watch (q : Nat) : Option Stop := if 23 < q then some .exhausted else none
    Decoder.passStatement .cutOff 4 = .ok () 17 ∧ Image.InReach .cutOff 17 ∧
      ∃ t, (Mover.watched watch).run m 3 (.initial #[] #[] ()) = .ok () t ∧ t.position = 17 := by
  intro program m watch
  obtain ⟨hpasses, hruns, -, -⟩ := cursor_bounded .cutOff
  have hload : Program.load .cutOff = .ok program := by cbv
  have hwalk : walk .cutOff 9 (.ahead [.statement] 4) = .ended (.ok () 17) := by rfl
  obtain ⟨-, hreach, hends⟩ := hpasses .statement 4 (by decide)
  have hpass : Decoder.passStatement .cutOff 4 = .ok () 17 :=
    Stage.ended.inj ((hends 9 (by decide)).symm.trans hwalk)
  have hinside : Image.InReach .cutOff 17 := by
    have hend := hreach 9
    rwa [hwalk] at hend
  have hwatch : ∀ q, (watch q).isSome → ¬ Image.InReach .cutOff q := by
    intro q hsome hq
    have hle : q ≤ 23 := hq.1
    simp only [watch, if_neg (Nat.not_lt.2 hle)] at hsome
    cases hsome
  have hrun := hruns program hload Unit {} {} #[] #[] () watch hwatch 3
  refine ⟨hpass, hinside, { State.initial #[] #[] () with
    position := 17, executed := 1
    store := ((State.initial #[] #[] ()).store.bind (State.initial #[] #[] ()).scope ⟨0⟩
      (.classInfo { name := ⟨[], ⟨0⟩⟩, fields := [], methods := []
                    closure := (State.initial #[] #[] ()).scope })).2 }, ?_, rfl⟩
  rw [hrun]
  cbv

end Bytewalk
