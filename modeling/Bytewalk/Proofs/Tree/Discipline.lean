import Mathlib
import Bytewalk.Proofs.Program.Assembly
import Bytewalk.Proofs.Tree.Obedience

/-!
# Disciplined programs

What the tree of a statement tells of the signals that come out of it is so: `Machine.allObey` says
that no other signal does, and that a disciplined statement refuses none where it is executed. So a
disciplined program refuses no signal: `signals_received`.
-/

namespace Bytewalk

variable {σ : Type}

/-! ## What comes out of a statement -/

/-- A signal that has come out may be raised. -/
def Flow.IsAmong (raises : Signal → Bool) (flow : Flow) : Prop :=
  ∀ signal, flow.signal? = some signal → raises signal

namespace Flow.IsAmong

variable {raises raises' : Signal → Bool} {flow : Flow}

theorem normal : Flow.IsAmong raises .normal := by
  rintro _ ⟨⟩

/-- A value comes out of a function where its signal may. -/
theorem returnValue_iff {value : Value} :
    Flow.IsAmong raises (.returnValue value) ↔ raises .leaveFunction := by
  refine ⟨fun h => h _ rfl, fun h => ?_⟩
  rintro _ ⟨⟩
  exact h

theorem mono (h : flow.IsAmong raises) (hraises : ∀ signal, raises signal → raises' signal) :
    flow.IsAmong raises' :=
  fun signal hsignal => hraises signal (h signal hsignal)

/-- Nothing comes out where nothing is raised. -/
theorem eq_normal (h : flow.IsAmong raises) (hclosed : ∀ signal, raises signal = false) :
    flow = .normal := by
  cases flow with
  | normal => rfl
  | breakLoop | returnValue =>
    have hraised := h _ rfl
    rw [hclosed] at hraised
    cases hraised

end Flow.IsAmong

/-- Only what may be raised has come out, and if nothing has, the execution has come to its end. -/
def Flow.Fits (raises : Signal → Bool) (stop : Nat) (flow : Flow) (q : Nat) : Prop :=
  flow.IsAmong raises ∧ (flow = .normal → q = stop)

theorem Flow.fits_normal {raises : Signal → Bool} {stop : Nat} :
    Flow.Fits raises stop .normal stop :=
  ⟨.normal, fun _ => rfl⟩

namespace Machine

variable {m : Setup σ} {n : Nat}

/-! ## What statements yield -/

theorem yields_print {evaluate : Exec σ Operand} :
    Exec.Yields (· = .normal) (print m evaluate) :=
  .bind fun _ => .bind fun _ => .bind fun _ => .pure rfl

theorem yields_declare {evaluate : Exec σ Operand} :
    Exec.Yields (· = .normal) (declare m evaluate) :=
  .bind fun _ => .bind fun _ => .bind fun _ => .bind fun _ => .pure rfl

theorem yields_assign {evaluate : Exec σ Operand} :
    Exec.Yields (· = .normal) (assign m evaluate) := by
  refine .bind fun name => .bind fun cell => .bind fun binding => ?_
  cases binding with
  | «variable» constant _ =>
    cases constant with
    | true => exact .bind fun _ => .bind fun _ => .bind fun _ => .pure rfl
    | false => exact .bind fun _ => .bind fun _ => .pure rfl
  | _ => exact .bind fun _ => .bind fun _ => .bind fun _ => .pure rfl

theorem yields_returnValue {evaluate : Exec σ Operand} :
    Exec.Yields (fun flow => ∃ value, flow = .returnValue value) (returnValue m evaluate) :=
  .bind fun value => .pure ⟨value, rfl⟩

theorem yields_declareClass : Exec.Yields (· = .normal) (declareClass m) := by
  rw [declareClass_eq]
  exact .bind fun _ => .bind fun _ => .bind fun _ => .bind fun _ => .bind fun _ => .bind fun _ =>
    .pure rfl

theorem yields_bindHost (source target : Symbol) :
    Exec.Yields (· = .normal) (bindHost m source target) := by
  rw [bindHost]
  split
  · exact .fail
  · split
    · exact .fail
    · exact .bind fun _ => .bind fun _ => .pure rfl

theorem yields_importHost : Exec.Yields (· = .normal) (importHost m) := by
  rw [importHost_eq]
  refine .bind fun source => .bind fun there => ?_
  cases there with
  | false => exact yields_bindHost _ _
  | true => exact .bind fun _ => yields_bindHost _ _

/-! ## Obedient steps -/

/-- The executions of all statements that stand in the image obey, and so do all expressions. -/
structure AllObey (m : Setup σ) (n : Nat) : Prop where
  /-- Statements yield what their trees tell, and if they are disciplined, they refuse no signal. -/
  execute : ∀ p s, Stands m.program.image p s →
    Obeys m s.isDisciplined p (Flow.Fits (s.mayRaise ·) (p + s.encode.length)) (execute m n)
  /-- Expressions refuse no signal. -/
  evaluate : ObeysAnywhere m (evaluate m n)

namespace AllObey

variable {w : Prop} {p : Nat}

/-- A list begins with its length. -/
theorem count_of_holds {body : List Stmt} {rest : List UInt8}
    (hlength : body.length < 2 ^ 31)
    (hbytes : m.program.image.Holds p
      (Word.ofCount body.length ++ (Stmt.encodeAll body ++ rest))) :
    Decoder.count m.program.image 1 p = .ok body.length (p + 4) ∧
      m.program.image.Holds (p + 4) (Stmt.encodeAll body) := by
  have hitems := Stmt.length_le_encodeAll body
  refine ⟨Decoder.count_of_holds hlength hbytes ?_, hbytes.right.left⟩
  rw [List.length_append]
  omega

/-! ## Functions -/

/-- The symbols of parameters are read, and bound in the scope of the function. -/
theorem collectParams (m : Setup σ) (closure : Scope) (number : Nat) :
    Obeys m w p (fun _ q => q = p + number * 4) (Exec.collect (do
      let param ← Exec.decode (Decoder.symbol m.program.image)
      Exec.bindIn m.program.names closure param .uninitialized
      return param) number) := by
  refine .collect (fun q => .decode rfl ?_) number
  have hbind : ∀ param, Obeys m w (q + 4) (fun _ r => r = q + 4)
      (Exec.bindIn m.program.names closure param .uninitialized) :=
    fun param => .bindIn _ closure param fun _ => trivial
  exact (hbind _).bind fun _ _ hr => .pure hr

/-- Where a disciplined function is declared, its body may be called without harm. -/
theorem declareFunction {symbol : Symbol} {params : List Symbol} {body : Stmt}
    (hs : Stands m.program.image p (.function symbol params body)) :
    Obeys m (Stmt.function symbol params body).isDisciplined (p + 1)
      (fun flow _ => flow.IsAmong ((Stmt.function symbol params body).mayRaise ·))
      (Machine.declareFunction m) := by
  cases hs.encodable with
  | function hlength hbody =>
  have hbytes : m.program.image.Holds (p + 1) (Word.ofSymbol symbol ++
      Word.ofCount params.length ++ params.flatMap Word.ofSymbol ++ body.encode) := hs.holds.tail
  simp only [List.append_assoc] at hbytes
  have hparams : params.length * 4 ≤ (params.flatMap Word.ofSymbol ++ body.encode).length := by
    rw [List.length_append, Word.length_flatMap_ofSymbol]
    omega
  have hthere : Stands m.program.image (p + 1 + 4 + 4 + params.length * 4) body := by
    have hbehind := hbytes.right.right.right
    rw [Word.length_flatMap_ofSymbol] at hbehind
    exact ⟨hbehind, hbody⟩
  refine .decode (Decoder.symbol_of_holds hbytes.left) ?_
  refine .decode (Decoder.count_of_holds hlength hbytes.right hparams) ?_
  refine .openScope fun closure => (collectParams m closure params.length).bind fun found q hq => ?_
  subst hq
  -- The body is passed over now, and executed where it stands when the function is called.
  refine .position (.decode (passStatement_eq_ok.2 hthere.passes) ?_)
  refine .andThen (Obeys.correspondence.qualify symbol) fun qualified q => ?_
  refine .bind (.bindHere _ symbol fun hd => ?_) fun _ _ _ => .pure .normal
  simp only [Stmt.isDisciplined, Bool.and_eq_true, Bool.not_eq_true'] at hd
  exact ⟨body, hthere, hd.2, hd.1⟩

/-! ## Parts of statements -/

variable (h : AllObey m n)
include h

/-- A condition ends behind its expression. -/
theorem condition {e : Expr} (hbytes : m.program.image.Holds p e.encode) (he : e.Encodable) :
    Obeys m w p (fun _ q => q = p + e.encode.length)
      (Machine.condition (Machine.evaluate m n)) := by
  have hobeys := Obeys.correspondence.condition h.evaluate.beside p
  have hends := hobeys.ending hbytes he.fills (follows_condition (follows_evaluate m n))
  exact hends.mono (fun _ => trivial) fun _ _ hq => hq.2 trivial

theorem executeOptional {s : Option Stmt}
    (hbytes : m.program.image.Holds p (Stmt.encodeOptional s)) (hs : ∀ x ∈ s, x.Encodable) :
    Obeys m (Stmt.isDisciplinedOptional s) p
      (Flow.Fits (Stmt.mayRaiseOptional · s) (p + (Stmt.encodeOptional s).length))
      (Machine.executeOptional m (Machine.execute m n)) := by
  cases s with
  | none => exact .decode (Decoder.present_of_zero hbytes.byteAt) (.pure Flow.fits_normal)
  | some s =>
    have hstands : Stands m.program.image p s := ⟨hbytes, hs s rfl⟩
    exact .decode (Decoder.present_of_ne_zero hstands.passes.byteAt_ne_zero)
      (h.execute p s hstands)

/-- Statements one behind the other obey up to the first out of which a signal comes. -/
theorem sequence {body : List Stmt} (hbytes : m.program.image.Holds p (Stmt.encodeAll body))
    (hbody : ∀ s ∈ body, s.Encodable) :
    Obeys m (Stmt.areDisciplined body) p
      (Flow.Fits (Stmt.mayRaiseAny · body) (p + (Stmt.encodeAll body).length))
      (Exec.sequence (Machine.execute m n) body.length) := by
  induction body generalizing p with
  | nil => exact .pure Flow.fits_normal
  | cons s rest ih =>
    obtain ⟨hs, hrest⟩ := List.forall_mem_cons.1 hbody
    have hfirst := h.execute p s ⟨hbytes.left, hs⟩
    rw [List.length_cons, Exec.sequence_succ, Stmt.encodeAll, List.length_append, ← Nat.add_assoc]
    simp only [Stmt.areDisciplined, Bool.and_eq_true, Stmt.mayRaiseAny]
    refine (hfirst.under And.left).bind fun flow q hfits => ?_
    obtain ⟨hamong, hq⟩ := hfits
    cases flow with
    | normal =>
      rw [hq rfl]
      refine (ih hbytes.right hrest).mono And.right fun flow r hfits => ?_
      exact ⟨hfits.1.mono fun _ hr => Bool.or_eq_true_iff.2 (.inr hr), hfits.2⟩
    | breakLoop | returnValue =>
      -- The statements behind it are left out, so it is not known where the execution has ended.
      refine .pure ⟨hamong.mono fun _ hr => Bool.or_eq_true_iff.2 (.inl hr), ?_⟩
      rintro ⟨⟩

/-! ## Branches and blocks -/

theorem branch {test : Expr} {positive : Stmt} {negative : Option Stmt}
    (hs : Stands m.program.image p (.branch test positive negative)) :
    Obeys m (Stmt.branch test positive negative).isDisciplined (p + 1)
      (fun flow _ => flow.IsAmong ((Stmt.branch test positive negative).mayRaise ·))
      (Machine.branch m (Machine.execute m n) (Machine.evaluate m n)) := by
  cases hs.encodable with
  | branch htest hpositive hnegative =>
  have hbytes : m.program.image.Holds (p + 1)
      (test.encode ++ positive.encode ++ Stmt.encodeOptional negative) := hs.holds.tail
  simp only [List.append_assoc] at hbytes
  have hthere : Stands m.program.image (p + 1 + test.encode.length) positive :=
    ⟨hbytes.right.left, hpositive⟩
  simp only [Stmt.isDisciplined, Bool.and_eq_true, Stmt.mayRaise]
  refine (h.condition hbytes.left htest).bind fun holds q hq => ?_
  subst hq
  cases holds with
  | true =>
    refine ((h.execute _ positive hthere).under And.left).bind fun flow q hfits => ?_
    cases flow with
    | normal =>
      exact .andThen (Obeys.correspondence.decode .passOptionalStatement) fun _ _ => .pure .normal
    | breakLoop | returnValue =>
      exact .pure (hfits.1.mono fun _ hr => Bool.or_eq_true_iff.2 (.inl hr))
  | false =>
    refine .decode (passStatement_eq_ok.2 hthere.passes) ?_
    refine (h.executeOptional hbytes.right.right hnegative).mono And.right fun flow q hfits => ?_
    exact hfits.1.mono fun _ hr => Bool.or_eq_true_iff.2 (.inr hr)

theorem block {body : List Stmt} (hs : Stands m.program.image p (.block body)) :
    Obeys m (Stmt.block body).isDisciplined (p + 1)
      (fun flow _ => flow.IsAmong ((Stmt.block body).mayRaise ·))
      (Machine.block m (Machine.execute m n)) := by
  cases hs.encodable with
  | block hlength hbody =>
  have hbytes : m.program.image.Holds (p + 1)
      (Word.ofCount body.length ++ Stmt.encodeAll body) := hs.holds.tail
  rw [← List.append_nil (Stmt.encodeAll body)] at hbytes
  obtain ⟨hcount, hitems⟩ := count_of_holds hlength hbytes
  refine .decode hcount (.openScope fun scope => .inScope ?_)
  exact (h.sequence hitems hbody).mono id fun _ _ hfits => hfits.1

/-! ## Loops -/

/-- The step of a loop may be left midway, and it is passed over then. -/
theorem loopStep {step : Option Stmt}
    (hbytes : m.program.image.Holds p (Stmt.encodeOptional step))
    (hstep : ∀ x ∈ step, x.Encodable) :
    Obeys m (Stmt.isDisciplinedOptional step) p
      (fun flow _ => flow.IsAmong (Stmt.mayRaiseOptional · step))
      (Machine.loopStep m (Machine.execute m n)) := by
  refine .position ((h.executeOptional hbytes hstep).bind fun flow q hfits => ?_)
  cases flow with
  | normal | returnValue => exact .pure hfits.1
  | breakLoop =>
    exact .seek (.andThen (Obeys.correspondence.decode .passOptionalStatement) fun _ _ =>
      .pure hfits.1)

section Loop

variable {initial : Option Stmt} {test : Expr} {body : Stmt} {step : Option Stmt}

/-- Out of a turn comes no signal but to leave the function, whatever comes out of the body and the
step. -/
theorem loopTurn {start : Nat}
    (hbytes : m.program.image.Holds start
      (test.encode ++ (body.encode ++ Stmt.encodeOptional step)))
    (htest : test.Encodable) (hbody : body.Encodable) (hstep : ∀ x ∈ step, x.Encodable) :
    Obeys m (body.isDisciplined ∧ Stmt.isDisciplinedOptional step) p
      (fun next _ => ∀ flow, next = some flow →
        flow.IsAmong ((Stmt.loop initial test body step).mayRaise ·))
      (Machine.loopTurn m (Machine.execute m n) (Machine.evaluate m n) start) := by
  have hthere : Stands m.program.image (start + test.encode.length) body :=
    ⟨hbytes.right.left, hbody⟩
  have hreturns : ∀ {value : Value},
      body.mayRaise .leaveFunction ∨ Stmt.mayRaiseOptional .leaveFunction step →
      Flow.IsAmong ((Stmt.loop initial test body step).mayRaise ·) (.returnValue value) :=
    fun hraises => Flow.IsAmong.returnValue_iff.2 (Stmt.mayRaise_loop (by decide) hraises)
  refine .seek ((h.condition hbytes.left htest).bind fun holds q hq => ?_)
  subst hq
  cases holds with
  | true =>
    refine .position (((h.execute _ body hthere).under And.left).bind
      fun flow q hfits => ?_)
    cases flow with
    | normal =>
      rw [hfits.2 rfl]
      refine ((h.loopStep hbytes.right.right hstep).under And.right).bind
        fun flow r hamong => ?_
      cases flow with
      | normal => exact .again
      | breakLoop => exact .last .normal
      | returnValue => exact .last (hreturns (.inr (Flow.IsAmong.returnValue_iff.1 hamong)))
    | breakLoop =>
      -- The loop receives the signal, and executes its step once more.
      refine .seek (.decode (passStatement_eq_ok.2 hthere.passes) ?_)
      refine ((h.loopStep hbytes.right.right hstep).under And.right).bind
        fun flow r hamong => ?_
      cases flow with
      | normal | breakLoop => exact .last .normal
      | returnValue => exact .last (hreturns (.inr (Flow.IsAmong.returnValue_iff.1 hamong)))
    | returnValue => exact .last (hreturns (.inl (Flow.IsAmong.returnValue_iff.1 hfits.1)))
  | false =>
    refine .decode (passStatement_eq_ok.2 hthere.passes) ?_
    exact .andThen (Obeys.correspondence.decode .passOptionalStatement) fun _ _ => .last .normal

theorem loop (turns : Nat) (hs : Stands m.program.image p (.loop initial test body step)) :
    Obeys m (Stmt.loop initial test body step).isDisciplined (p + 1)
      (fun flow _ => flow.IsAmong ((Stmt.loop initial test body step).mayRaise ·))
      (Machine.loop m (Machine.execute m n) (Machine.evaluate m n) turns) := by
  cases hs.encodable with
  | loop hinitial htest hbody hstep =>
  have hbytes : m.program.image.Holds (p + 1) (Stmt.encodeOptional initial ++ test.encode ++
      body.encode ++ Stmt.encodeOptional step) := hs.holds.tail
  simp only [List.append_assoc] at hbytes
  simp only [Stmt.isDisciplined, Bool.and_eq_true, and_assoc]
  refine .openScope fun scope => .inScope ?_
  refine ((h.executeOptional hbytes.left hinitial).under And.left).bind
    fun flow q hfits => ?_
  cases flow with
  | normal =>
    rw [hfits.2 rfl]
    refine .position (.iterate (fun q => ?_) turns)
    exact (h.loopTurn hbytes.right htest hbody hstep).under And.right
  | breakLoop | returnValue =>
    -- The loop does not receive what comes out of its first statement.
    exact .pure (hfits.1.mono fun signal hr => by simp [Stmt.mayRaise, hr])

end Loop

/-! ## Modules -/

/-- Members out of which no signal comes are all executed. -/
theorem moduleMembers {members : List Stmt} {rest : List UInt8} (hlength : members.length < 2 ^ 31)
    (hbytes : m.program.image.Holds p
      (Word.ofCount members.length ++ (Stmt.encodeAll members ++ rest)))
    (hmembers : ∀ s ∈ members, s.Encodable) :
    Obeys m (Stmt.areClosed members ∧ Stmt.areDisciplined members) p
      (fun _ q => q = p + 4 + (Stmt.encodeAll members).length)
      (Machine.moduleMembers m (Machine.execute m n)) := by
  obtain ⟨hcount, hitems⟩ := count_of_holds hlength hbytes
  refine .decode hcount (((h.sequence hitems hmembers).under And.right).bind
    fun flow q hfits => ?_)
  cases flow with
  | normal => exact .pure (hfits.2 rfl)
  | breakLoop | returnValue =>
    -- The module would refuse a signal, but none comes out of its members.
    refine .fail_of_not fun hw => ?_
    cases hfits.1.eq_normal (Stmt.areClosed_iff.1 hw.1)

theorem declareModule {symbol : Symbol} {fields methods : List Stmt}
    (hs : Stands m.program.image p (.module symbol fields methods)) :
    Obeys m (Stmt.module symbol fields methods).isDisciplined (p + 1)
      (fun flow _ => flow.IsAmong ((Stmt.module symbol fields methods).mayRaise ·))
      (Machine.declareModule m (Machine.execute m n)) := by
  cases hs.encodable with
  | module hfields hfield hmethods hmethod =>
  have hbytes : m.program.image.Holds (p + 1) (Word.ofSymbol symbol ++
      Word.ofCount fields.length ++ Stmt.encodeAll fields ++ Word.ofCount methods.length ++
      Stmt.encodeAll methods) := hs.holds.tail
  simp only [List.append_assoc] at hbytes
  have hbehind := hbytes.right.right.right
  rw [← List.append_nil (Stmt.encodeAll methods)] at hbehind
  have hmembers : Obeys m (Stmt.module symbol fields methods).isDisciplined (p + 1 + 4)
      (fun _ _ => True) (do
      Machine.moduleMembers m (Machine.execute m n)
      Machine.moduleMembers m (Machine.execute m n)) := by
    simp only [Stmt.isDisciplined, Bool.and_eq_true]
    refine ((h.moduleMembers hfields hbytes.right hfield).under And.left).bind
      fun _ q hq => ?_
    rw [hq]
    exact (h.moduleMembers hmethods hbehind hmethod).mono And.right fun _ _ _ => trivial
  refine .decode (Decoder.symbol_of_holds hbytes.left) (.openScope fun scope => ?_)
  refine hmembers.inScope.inModule.bind fun _ q _ => ?_
  refine .andThen (Obeys.correspondence.qualify symbol) fun qualified q => ?_
  exact .bind (.bindHere _ symbol fun _ => trivial) fun _ _ _ => .pure .normal

/-! ## Calls -/

/-- The body of a function may return, and it does not leave a loop around the call. -/
theorem enter {f : Function} (hf : (Binding.function f : Binding σ).IsDisciplined m)
    (frame : Scope) : ObeysAnywhere m (Machine.enter m (Machine.execute m n) f frame) := by
  obtain ⟨body, hstands, hdisciplined, hkept⟩ := hf
  intro p
  have hbody := (h.execute _ body hstands).under fun _ : True => hdisciplined
  refine .mapError (fun _ => rfl) (.bind (.inCall hbody) fun flow q hfits => ?_)
  obtain ⟨r, hamong, -⟩ := hfits
  cases flow with
  | normal | returnValue => exact .pure trivial
  | breakLoop =>
    -- A disciplined body does not raise what the call would refuse.
    have hraised : body.mayRaise .leaveLoop = true := hamong _ rfl
    rw [hkept] at hraised
    cases hraised

theorem invoke (f : Function) (args : List Value)
    (hf : (Binding.function f : Binding σ).IsDisciplined m) :
    ObeysAnywhere m (Machine.invoke m (Machine.execute m n) f args) := by
  intro p
  rw [invoke_eq]
  split
  · refine .withinDepth ?_
    exact .andThen (Obeys.correspondence.openFrame f args) fun frame q => h.enter hf frame q
  · exact .fail (by rintro _ ⟨⟩)

theorem call :
    ObeysAnywhere m (Machine.call m (Machine.execute m n) (Machine.evaluate m n)) := by
  rw [← callWith_invoke]
  exact Obeys.correspondence.callWith h.evaluate.beside fun f args hf =>
    (h.invoke f args hf).beside

/-! ## Statements -/

/-- Behind its opcode. -/
theorem statementOf {s : Stmt} (hs : Stands m.program.image p s) :
    ∃ op bytes, s.encode = StatementOp.byte op :: bytes ∧
      Obeys m s.isDisciplined (p + 1) (fun flow _ => flow.IsAmong (s.mayRaise ·))
        (Machine.statementOf m (Machine.execute m n) (Machine.evaluate m n) n op) := by
  -- Most statements raise nothing by themselves and execute no other statement.
  have hnormal : ∀ {x : Exec σ Flow}, ObeysAnywhere m x → Exec.Yields (· = .normal) x →
      Obeys m s.isDisciplined (p + 1) (fun flow _ => flow.IsAmong (s.mayRaise ·)) x := by
    intro x hx hyields
    refine (Obeys.yielding hx hyields).mono id fun flow _ hflow => ?_
    rw [hflow]
    exact .normal
  have hcorrespondence := @Obeys.correspondence σ m
  cases hs.encodable with
  | print =>
    exact ⟨.print, _, rfl, hnormal (hcorrespondence.print h.evaluate.beside) yields_print⟩
  | branch => exact ⟨.branch, _, rfl, h.branch hs⟩
  | block => exact ⟨.block, _, rfl, h.block hs⟩
  | declare =>
    exact ⟨.declare, _, rfl, hnormal (hcorrespondence.declare h.evaluate.beside) yields_declare⟩
  | assign =>
    exact ⟨.assign, _, rfl, hnormal (hcorrespondence.assign h.evaluate.beside) yields_assign⟩
  | loop => exact ⟨.loop, _, rfl, h.loop n hs⟩
  | breakLoop =>
    refine ⟨.breakLoop, [], rfl, .pure ?_⟩
    rintro _ ⟨⟩
    rfl
  | function => exact ⟨.function, _, rfl, declareFunction hs⟩
  | call => exact ⟨.call, _, rfl, .andThen h.call fun _ _ => .pure .normal⟩
  | returnValue =>
    refine ⟨.returnValue, _, rfl, ?_⟩
    refine (Obeys.yielding (hcorrespondence.returnValue h.evaluate.beside)
      yields_returnValue).mono id ?_
    rintro _ _ ⟨value, rfl⟩
    exact Flow.IsAmong.returnValue_iff.2 rfl
  | classDecl =>
    have hclass := hcorrespondence.declareClass fun _ => trivial
    exact ⟨.classDecl, _, rfl, hnormal hclass yields_declareClass⟩
  | module => exact ⟨.module, _, rfl, h.declareModule hs⟩
  | importHost =>
    exact ⟨.importHost, _, rfl, hnormal hcorrespondence.importHost yields_importHost⟩

theorem statement {s : Stmt} (hs : Stands m.program.image p s) :
    Obeys m s.isDisciplined p (fun flow _ => flow.IsAmong (s.mayRaise ·))
      (Machine.statement m (Machine.execute m n) (Machine.evaluate m n) n) := by
  obtain ⟨op, bytes, hencode, hobeys⟩ := h.statementOf hs
  have hbytes := hs.holds
  rw [hencode] at hbytes
  refine .position (.mapError (fun _ => rfl) (Obeys.countStatement.bind fun _ q hq => ?_))
  rw [hq]
  refine .decode (Decoder.byte_of_holds hbytes) ?_
  rw [StatementOp.ofByte?_byte]
  exact hobeys

end AllObey

/-- All executions obey, however many steps they are given. -/
theorem allObey (m : Setup σ) (n : Nat) : AllObey m n := by
  -- Statements and expressions go together, since calls execute statements.
  induction n with
  | zero =>
    have hexecute : Machine.execute m 0 = Exec.exhaust := by
      funext s
      rw [Machine.execute]
    have hevaluate : Machine.evaluate m 0 = Exec.exhaust := by
      funext s
      rw [Machine.evaluate]
    exact ⟨fun _ _ _ => hexecute ▸ .exhaust, fun _ => hevaluate ▸ .exhaust⟩
  | succ n ih =>
    constructor
    · intro p s hs
      -- Where a statement ends that nothing has left, passing over its bytes says.
      have hstatement := ih.statement hs
      rw [← execute_succ] at hstatement
      exact hstatement.ending hs.holds hs.encodable.fills (follows_execute m (n + 1))
    · rw [evaluate_succ]
      exact Obeys.correspondence.expression ih.evaluate.beside ih.call.beside

/-! ## Runs -/

/-- A program of disciplined statements, out of which no signal comes, refuses none. -/
theorem topLevel_obeys (m : Setup σ) (n turns : Nat) {p : Nat} {body : List Stmt}
    (hbytes : m.program.image.Holds p (Stmt.encodeAll body))
    (hend : p + (Stmt.encodeAll body).length = m.program.codeEnd)
    (hbody : ∀ s ∈ body, s.Encodable) :
    Obeys m (Stmt.areClosed body ∧ Stmt.areDisciplined body) p (fun _ _ => True)
      (topLevel m (Machine.execute m n) turns) := by
  induction turns generalizing p body with
  | zero =>
    rw [topLevel_zero]
    refine .position ?_
    split
    · exact .exhaust
    · exact .pure trivial
  | succ turns ih =>
    rw [topLevel_succ]
    refine .position ?_
    split
    · rename_i hstart
      cases body with
      | nil =>
        -- Behind the last statement there is no code.
        rw [Stmt.encodeAll, List.length_nil] at hend
        omega
      | cons s rest =>
        obtain ⟨hs, hrest⟩ := List.forall_mem_cons.1 hbody
        rw [Stmt.encodeAll, List.length_append, ← Nat.add_assoc] at hend
        rw [Stmt.areClosed_cons, Stmt.areDisciplined, Bool.and_eq_true]
        have hfirst := (allObey m n).execute p s ⟨hbytes.left, hs⟩
        refine (hfirst.under fun hw => hw.2.1).bind fun flow q hfits => ?_
        cases flow with
        | normal =>
          rw [hfits.2 rfl]
          exact (ih hbytes.right hend hrest).under fun hw => ⟨hw.1.2, hw.2.2⟩
        | breakLoop | returnValue =>
          -- No signal comes out of the statement, so there is none to refuse.
          refine .mapError (fun _ => rfl) (.fail_of_not fun hw => ?_)
          cases hfits.1.eq_normal hw.1.1
    · exact .pure trivial

end Machine

/-- Before the first statement nothing is bound. -/
theorem Disciplined.initial {m : Setup σ} (h : m.hosts.RefusesNoSignal)
    (output echoed : Array String) (host : σ) :
    Disciplined m (State.initial output echoed host).store :=
  ⟨h, fun cell b hb => by simp at hb⟩

/-- Signals are received. Wherever a statement is executed, no signal comes out of it but those
that its tree tells. So if no signal comes out of a statement of the program or of a member of a
module, and none that leaves a loop out of the body of a function, then no run of the program fails
because a signal has been refused, unless a host function makes such a failure up. -/
theorem signals_received (m : Setup σ) :
    (∀ (n : Nat) (s t : State σ) (stmt : Stmt) (flow : Flow), stmt.Encodable →
      m.program.image.Holds s.position stmt.encode → Machine.execute m n s = .ok flow t →
      ∀ signal, flow.signal? = some signal → stmt.mayRaise signal) ∧
    ∀ b : Builder, b.code.length < 2 ^ 31 → (∀ stmt ∈ b.statements, stmt.Encodable) →
      b.program = .ok m.program → Stmt.areClosed b.statements → Stmt.areDisciplined b.statements →
      m.hosts.RefusesNoSignal →
      ∀ steps output echoed host e t,
        m.runFrom steps (.initial output echoed host) = .error (.failed e) t →
        ∀ keyword, e.cause ≠ .strayControlFlow keyword := by
  constructor
  · intro n s t stmt flow hstmt hholds hexecute
    have hobeys := (Machine.allObey m n).execute s.position stmt ⟨hholds, hstmt⟩
    rw [Obeys] at hobeys
    have hbehaves := hobeys s rfl
    rw [hexecute] at hbehaves
    cases hbehaves with
    | ok hfits => exact hfits.1
  · intro b hcode hencodable hload hclosed hdisciplined hhosts steps output echoed host e t hrun
    obtain ⟨program, hosts, config⟩ := m
    obtain ⟨names, rfl⟩ := Builder.eq_of_program (Builder.code_lt_of_program hcode hload) hload
    let program : Program := { image := b.build, codeEnd := codeStart + b.code.length, names }
    have hobeys := Machine.topLevel_obeys { program, hosts, config } steps steps b.holds_code rfl
      hencodable
    rw [Obeys] at hobeys
    have hbehaves := hobeys (.initial output echoed host) rfl
    rw [Setup.runFrom] at hrun
    rw [hrun] at hbehaves
    cases hbehaves with
    | failed hcause => exact hcause ⟨hclosed, hdisciplined⟩ (.initial hhosts output echoed host)

/-- A program that calls a function out of which a value comes, and in it a loop that is left, and
then a name that nothing is bound to. -/
def Builder.receiving : Builder :=
  Builder.empty.extend [
    .function ⟨1⟩ [] (.block [.loop none (.literal (.bool true)) .breakLoop none,
      .returnValue none]),
    .call ⟨1⟩ [],
    .call ⟨2⟩ []]

/-- The loop receives its signal and the call receives the value, and the run fails of the name. -/
theorem signals_received_receiving :
    let program : Program := { image := Builder.receiving.build, codeEnd := 45, names := {} }
    let m : Setup Unit := { program, hosts := {}, config := {} }
    let s : State Unit := .initial #[] #[] ()
    (Stmt.returnValue none).Encodable ∧
      m.program.image.Holds 25 (Stmt.returnValue none).encode ∧
      (∃ t, Machine.execute m 1 { s with position := 25 } = .ok (.returnValue .null) t) ∧
      (Stmt.returnValue none).mayRaise .leaveFunction ∧
    Builder.receiving.code.length < 2 ^ 31 ∧
      (∀ stmt ∈ Builder.receiving.statements, stmt.Encodable) ∧
      Builder.receiving.program = .ok m.program ∧
      Stmt.areClosed Builder.receiving.statements ∧
      Stmt.areDisciplined Builder.receiving.statements ∧ m.hosts.RefusesNoSignal ∧
      ∃ e t, m.runFrom 7 s = .error (.failed e) t ∧ e.cause = .unknownSymbol "#2" ∧
        ∀ keyword, e.cause ≠ .strayControlFlow keyword := by
  intro program m s
  have hreturn : (Stmt.returnValue none).Encodable := .returnValue (by rintro _ ⟨⟩)
  have hholds : m.program.image.Holds 25 (Stmt.returnValue none).encode := by
    rw [Image.Holds]
    decide
  obtain ⟨u, hexecute⟩ : ∃ t, Machine.execute m 1 { s with position := 25 } =
      .ok (.returnValue .null) t := ⟨_, by cbv⟩
  have hencodable : ∀ stmt ∈ Builder.receiving.statements, stmt.Encodable := by
    intro stmt hstmt
    have hmem : stmt ∈ [Stmt.function ⟨1⟩ [] (.block [.loop none (.literal (.bool true)) .breakLoop
      none, .returnValue none]), .call ⟨1⟩ [], .call ⟨2⟩ []] := hstmt
    have hloop : (Stmt.loop none (.literal (.bool true)) .breakLoop none).Encodable :=
      .loop (by rintro _ ⟨⟩) (.literal _) .breakLoop (by rintro _ ⟨⟩)
    simp only [List.mem_cons, List.not_mem_nil, or_false] at hmem
    rcases hmem with rfl | rfl | rfl
    · refine .function (by decide) (.block (by decide) ?_)
      simp only [List.forall_mem_cons, List.not_mem_nil, false_implies, implies_true, and_true]
      exact ⟨hloop, hreturn⟩
    · exact .call (by decide) (by rintro _ ⟨⟩)
    · exact .call (by decide) (by rintro _ ⟨⟩)
  have hload : Builder.receiving.program = .ok m.program := by cbv
  have hhosts : m.hosts.RefusesNoSignal := by rintro _ ⟨⟩
  obtain ⟨e, t, hrun, hcause⟩ : ∃ e t, m.runFrom 7 s = .error (.failed e) t ∧
      e.cause = .unknownSymbol "#2" := ⟨_, _, by cbv, by cbv⟩
  have hraised := (signals_received m).1 1 _ u _ _ hreturn hholds hexecute .leaveFunction rfl
  have hreceived := (signals_received m).2 _ (by decide) hencodable hload (by decide) (by decide)
    hhosts 7 #[] #[] () e t hrun
  exact ⟨hreturn, hholds, ⟨u, hexecute⟩, hraised, by decide, hencodable, hload, by decide,
    by decide, hhosts, e, t, hrun, hcause, hreceived⟩

end Bytewalk
