import Bytewalk.Proofs.Code.Tiling
import Bytewalk.Proofs.Machine.Stability

/-!
# Classes of a run

A class keeps the offsets at which its members begin. A run never goes there, but wherever it has
come to, the offsets of every class are right: they tile the declaration of the class.

- `Begun.Declares.spans`: a declaration that ends has bound a class that spans it;
- `Exec.Avoids.watched`: a run that is stopped before every declaration of a class does not come to
  a store that holds the class;
- `classes_tiled`: so a class that is bound in a run has been declared in it, and spans its
  declaration.
-/

namespace Bytewalk

open Decoder

variable {σ α β : Type} {m : Setup σ} {c : ClassInfo}

/-! ## Declarations of classes -/

/-- The class is declared by the bytes from `p` to `q`, and `middle` is where the count of its
methods stands: its fields and its methods are as many as their counts say, and they tile the bytes
behind the counts. -/
structure ClassInfo.Spans (c : ClassInfo) (image : Image) (p middle q : Nat) : Prop where
  /-- The fields are counted. -/
  fieldCount : (image.int32At (p + 5)).toInt = c.fields.length
  /-- The fields lie between the counts. -/
  fields : image.Tiles c.fields (p + 9) middle
  /-- The methods are counted. -/
  methodCount : (image.int32At middle).toInt = c.methods.length
  /-- The methods lie behind their count. -/
  methods : image.Tiles c.methods (middle + 4) q

/-- Where a tree is encoded, nothing but its members tiles the bytes, and they begin where their
encodings do. -/
theorem ClassInfo.Spans.eq_starts {image : Image} {p middle q : Nat} {symbol : Symbol}
    {fields methods : List Stmt} (h : c.Spans image p middle q)
    (hstmt : (Stmt.classDecl symbol fields methods).Encodable)
    (hbytes : image.Holds p (Stmt.classDecl symbol fields methods).encode) :
    c.fields = Stmt.starts (p + 9) fields ∧
      middle = p + 9 + (Stmt.encodeAll fields).length ∧
      c.methods = Stmt.starts (middle + 4) methods ∧
      q = p + (Stmt.classDecl symbol fields methods).encode.length := by
  cases hstmt with
  | classDecl hfewFields hfields hfewMethods hmethods =>
    -- Behind the opcode and the name stand two counted lists.
    have hbody : image.Holds (p + 1) (Word.ofSymbol symbol ++
        (Word.ofCount fields.length ++ Stmt.encodeAll fields ++
          (Word.ofCount methods.length ++ Stmt.encodeAll methods))) := by
      simpa only [List.append_assoc] using hbytes.tail
    have hmembers := hbody.right
    rw [Word.length_ofSymbol] at hmembers
    obtain ⟨hfirst, rfl⟩ :=
      Stmt.eq_starts_of_holds hfewFields hfields hmembers.left h.fieldCount h.fields
    have hcounted := hmembers.right
    rw [List.length_append, Word.length_ofCount, ← Nat.add_assoc] at hcounted
    obtain ⟨hsecond, rfl⟩ :=
      Stmt.eq_starts_of_holds hfewMethods hmethods hcounted h.methodCount h.methods
    refine ⟨hfirst, rfl, hsecond, ?_⟩
    simp only [Stmt.encode, List.length_cons, List.length_append, Word.length_ofSymbol,
      Word.length_ofCount]
    omega

namespace Machine

/-- The class that a declaration would bind whose symbol is at the position of the state. -/
def classAt (m : Setup σ) (s : State σ) (fields methods : List Nat) : ClassInfo where
  name := { parent := s.modules, symbol := ⟨m.program.image.int32At s.position⟩ }
  fields := fields
  methods := methods
  closure := s.scope

/-- A declaration of a class finds both groups of members and binds the class, or it fails and binds
nothing. -/
theorem declareClass_cases (m : Setup σ) (s : State σ) :
    (∃ stop t, declareClass m s = .error stop t ∧ t.store = s.store) ∨
      ∃ fields middle methods t,
        members m.program.image (s.position + 4) = .ok fields middle ∧
        members m.program.image middle = .ok methods t.position ∧
        declareClass m s = .ok .normal t ∧
        t.store = (s.store.bind s.scope (classAt m s fields methods).name.symbol
          (.classInfo (classAt m s fields methods))).2 := by
  have hsymbol : Exec.decode (symbol m.program.image) s = _ := Exec.decode_of_ok s rfl
  cases hfields : members m.program.image (s.position + 4) with
  | error e q =>
    have hfails := Exec.decode_of_error { s with position := s.position + 4 } hfields
    refine .inl ⟨.failed e, { s with position := q }, ?_, rfl⟩
    rw [declareClass_eq, bind_of_ok hsymbol, bind_of_error hfails]
  | ok fields middle =>
    have hfound := Exec.decode_of_ok { s with position := s.position + 4 } hfields
    cases hmethods : members m.program.image middle with
    | error e q =>
      have hfails := Exec.decode_of_error { s with position := middle } hmethods
      refine .inl ⟨.failed e, { s with position := q }, ?_, rfl⟩
      rw [declareClass_eq, bind_of_ok hsymbol, bind_of_ok hfound, bind_of_error hfails]
    | ok methods q =>
      have hall := Exec.decode_of_ok { s with position := middle } hmethods
      let c := classAt m s fields methods
      have hbehind : declareClass m s =
          (Exec.bindHere m.program.names c.name.symbol (.classInfo c) >>= fun _ => pure .normal)
            { s with position := q } := by
        rw [declareClass_eq, bind_of_ok hsymbol, bind_of_ok hfound, bind_of_ok hall]
        rfl
      by_cases hbound : s.store.bindsLocally s.scope c.name.symbol
      · have hfails : Exec.bindHere m.program.names c.name.symbol (.classInfo c)
            { s with position := q } =
              Exec.fail (.duplicateSymbol (m.program.names.display c.name.symbol))
                { s with position := q } := if_pos hbound
        exact .inl ⟨_, _, hbehind.trans (bind_of_error hfails), rfl⟩
      · have hbinds : Exec.bindHere m.program.names c.name.symbol (.classInfo c)
            { s with position := q } = .ok () { s with
              position := q, store := (s.store.bind s.scope c.name.symbol (.classInfo c)).2 } :=
          if_neg hbound
        exact .inr ⟨fields, middle, methods, _, rfl, hmethods,
          hbehind.trans (bind_of_ok hbinds), rfl⟩

end Machine

/-- What has begun is a declaration. It ends in the state `t`, however many steps it is given, and
it has bound the class in the current scope and nothing else. -/
structure Begun.Declares (m : Setup σ) (b : Begun σ) (c : ClassInfo) (t : State σ) : Prop where
  /-- A statement has begun. -/
  kind : b.kind = .statement
  /-- The statement declares a class. -/
  opcode : StatementOp.ofByte? (m.program.image.byteAt b.state.position) = some .classDecl
  /-- It ends. -/
  ends : ∀ n, Machine.execute m (n + 1) b.state = .ok .normal t
  /-- The name of the class is bound to it. -/
  binds : t.store = (b.state.store.bind b.state.scope c.name.symbol (.classInfo c)).2

/-- The class that is declared spans its declaration up to the position at which this ends. -/
theorem Begun.Declares.spans {b : Begun σ} {t : State σ} (h : b.Declares m c t) :
    ∃ middle, c.Spans m.program.image b.state.position middle t.position := by
  have hends := h.ends 0
  rw [Machine.execute_succ] at hends
  have hdeclare := Machine.statement_eq_ok h.opcode hends
  rw [Machine.statementOf] at hdeclare
  rcases Machine.declareClass_cases m
    { b.state with position := b.state.position + 1, executed := b.state.executed + 1 } with
    ⟨stop, t', hfails, -⟩ | ⟨fields, middle, methods, t', hfields, hmethods, hends', hbinds⟩
  · rw [hfails] at hdeclare
    cases hdeclare
  · rw [hends'] at hdeclare
    cases hdeclare
    -- The new cell holds one class only.
    have hnew := b.state.store.read?_bind_new b.state.scope c.name.symbol (.classInfo c)
    rw [← h.binds, hbinds] at hnew
    have hsame := hnew.symm.trans (b.state.store.read?_bind_new _ _ _)
    cases hsame
    obtain ⟨hfieldCount, -, hfieldTiles⟩ := members_eq_ok.1 hfields
    obtain ⟨hmethodCount, -, hmethodTiles⟩ := members_eq_ok.1 hmethods
    exact ⟨middle, hfieldCount, hfieldTiles, hmethodCount, hmethodTiles⟩

/-! ## Stores without the class -/

/-- No cell holds the class. -/
def Store.Lacks (store : Store (Binding σ)) (c : ClassInfo) : Prop :=
  ∀ cell, store.read? cell ≠ some (.classInfo c)

namespace Store.Lacks

variable {store : Store (Binding σ)} (h : store.Lacks c)
include h

theorem bind (scope : Scope) (name : Symbol) {binding : Binding σ} (hne : binding ≠ .classInfo c) :
    (store.bind scope name binding).2.Lacks c := by
  intro cell hcell
  rcases store.read?_bind hcell with hold | hnew
  · exact h cell hold
  · exact hne hnew.symm

theorem write (cell : CellId) {binding : Binding σ} (hne : binding ≠ .classInfo c) :
    (store.write cell binding).Lacks c := by
  intro other hother
  rcases store.read?_write hother with hold | hnew
  · exact h other hold
  · exact hne hnew.symm

/-- What is read is something else. -/
theorem read?_ne (cell : CellId) : (store.read? cell).getD default ≠ .classInfo c := by
  cases hcell : store.read? cell with
  | none => exact nofun
  | some b =>
    rintro rfl
    exact h cell hcell

end Store.Lacks

/-- From a state without the class the execution does not come to one with it. -/
def Exec.Avoids (c : ClassInfo) (x : Exec σ α) (s : State σ) : Prop :=
  s.store.Lacks c → (endState (x s)).store.Lacks c

namespace Exec.Avoids

variable {x : Exec σ α} {k : α → Exec σ β} {s : State σ}

theorem of_store_eq (h : (endState (x s)).store = s.store) : x.Avoids c s :=
  fun hs => h ▸ hs

theorem still (hx : x.Still) (s : State σ) : x.Avoids c s :=
  of_store_eq (hx s).1

theorem bind (hx : x.Avoids c s) (hk : ∀ a t, x s = .ok a t → (k a).Avoids c t) :
    (x >>= k).Avoids c s := by
  intro hs
  have hfirst := hx hs
  cases hend : x s with
  | ok a t =>
    rw [hend] at hfirst
    rw [bind_of_ok hend]
    exact hk a t hend hfirst
  | error stop t =>
    rw [hend] at hfirst
    rw [bind_of_error hend]
    exact hfirst

theorem mapError {f : Error → Error} (hx : x.Avoids c s) : (Exec.mapError f x).Avoids c s := by
  rw [Avoids, endState_mapError]
  exact hx

theorem within {enter : State σ → State σ} {leave : State σ → State σ → State σ}
    (henter : (enter s).store = s.store) (hleave : ∀ t, (leave s t).store = t.store)
    (hx : x.Avoids c (enter s)) : (Exec.within enter leave x).Avoids c s := by
  rw [Avoids, endState_within, hleave, ← henter]
  exact hx

theorem withinDepth (m : Setup σ) (hx : x.Avoids c s) : (Machine.withinDepth m x).Avoids c s := by
  rw [Avoids, Machine.withinDepth]
  split
  · exact id
  · exact hx

theorem twins {x x' : Exec σ α}
    (h : Machine.Twins m id (· ≠ .classInfo c) x x') (s : State σ) : x.Avoids c s := by
  cases h with
  | pure a => exact still (.pure a) s
  | exhaust => exact of_store_eq rfl
  | fail => exact still (.fail _) s
  | lift => exact still (.lift _) s
  | decode => exact still (.decode _) s
  | seek p => exact still (.seek p) s
  | position => exact still .position s
  | scope => exact of_store_eq rfl
  | qualify name => exact still (.qualify name) s
  | resolve name => exact still (.resolve _ name) s
  | openIn parent => exact id
  | bindIn scope name hne =>
    intro hs
    rw [Exec.bindIn]
    split
    · exact hs
    · exact hs.bind scope name hne
  | write cell value => exact fun hs => hs.write cell fun heq => by cases heq

/-- Of two executions the first one avoids the class from every state. -/
def Beside (c : ClassInfo) (x _x' : Exec σ α) : Prop :=
  ∀ s, x.Avoids c s

/-- To avoid a class is a lockstep of the machine with itself, but for declarations of classes. -/
theorem lockstep (m : Setup σ) (c : ClassInfo) :
    Machine.Lockstep m m.hosts m.config id (· ≠ .classInfo c) (fun {_} => Beside (σ := σ) c) where
  inert h := by
    rintro rfl
    exact h
  registered _ _ := nofun
  hosts name := (Option.map_id_apply ..).symm
  twins h s := twins h s
  bind hx hk s := bind (hx s) fun a t _ => hk a t
  read hk s hs := hk _ (hs.read?_ne _) s hs
  inScope h s := within rfl (fun _ => rfl) (h _)
  inModule h s := within rfl (fun _ => rfl) (h _)
  callHost _ args s := still (.callHost _ args) s
  emitLine line s := still (.emitLine m line) s
  stray flow s := still (.fail _) s
  function _ := nofun
  mapError _ h s := mapError (h s)
  inCall h s := within rfl (fun _ => rfl) (h _)
  withinDepth h s := withinDepth m (h s)
  countStatement s := still (.countStatement m) s

/-- A statement that does not declare the class avoids it where what is inside does. -/
theorem statement {execute : Exec σ Flow} {evaluate : Exec σ Operand}
    (hx : Beside c execute execute) (he : Beside c evaluate evaluate) (turns : Nat)
    (hnot : ∀ t, ¬ Begun.Declares m ⟨.statement, s⟩ c t) :
    (Machine.statement m execute evaluate turns).Avoids c s := by
  refine bind (still .position s) fun start s' hposition => ?_
  cases hposition
  refine mapError (bind (still (.countStatement m) s) fun _ s' hcount => ?_)
  obtain rfl := Machine.countStatement_eq_ok hcount
  refine bind (still (.decode _) _) fun code s' hcode => ?_
  cases hcode
  cases hop : StatementOp.ofByte? (m.program.image.byteAt s.position) with
  | none => exact still (.fail _) _
  | some op =>
    by_cases hclass : op = .classDecl
    · subst hclass
      change (Machine.declareClass m).Avoids c _
      intro hs
      rcases Machine.declareClass_cases m
        { s with position := s.position + 1, executed := s.executed + 1 } with
        ⟨stop, t, hfails, hsame⟩ | ⟨fields, middle, methods, t, -, -, hends, hbinds⟩
      · rw [hfails, endState, hsame]
        exact hs
      · rw [hends, endState, hbinds]
        -- If it bound the class, it would be the declaration of the class.
        refine hs.bind _ _ ?_
        rintro ⟨⟩
        refine hnot t ⟨rfl, hop, fun n => ?_, hbinds⟩
        rw [Machine.execute_succ, Machine.statement_of_opcode hop, Exec.mapError, bind_of_ok hcount,
          bind_of_ok (Exec.seek_eq _ _), Machine.statementOf, hends]
    · have hlockstep := lockstep m c
      have hstatement := hlockstep.statementWith hx he (hlockstep.call hx he)
        (hlockstep.iterate (.refl turns)) op fun h => absurd h hclass
      rw [Machine.statementWith_call] at hstatement
      exact hstatement _

/-- A run that is stopped before any declaration of the class avoids it. -/
theorem watched {watch : Watch σ}
    (hwatch : ∀ b around t, b.Declares m c t → (watch b around).isSome) (n : Nat) : ∀ around,
    Beside c (Machine.executeWatched m watch n around) (Machine.executeWatched m watch n around) ∧
      Beside c (Machine.evaluateWatched m watch n around)
        (Machine.evaluateWatched m watch n around) := by
  have hlockstep := lockstep m c
  -- Statements and expressions go together, since calls execute statements.
  induction n with
  | zero =>
    intro around
    rw [Machine.executeWatched_zero, Machine.evaluateWatched_zero]
    exact ⟨hlockstep.exhaust, hlockstep.exhaust⟩
  | succ n ih =>
    intro around
    constructor
    · intro s
      obtain ⟨hx, he⟩ := ih (⟨.statement, s⟩ :: around)
      rw [Avoids, Machine.executeWatched_succ, Watch.guard]
      split
      · exact id
      · rename_i hnone
        refine statement hx he n fun t hdeclares => ?_
        have hsome := hwatch _ around t hdeclares
        rw [hnone] at hsome
        cases hsome
    · intro s
      obtain ⟨hx, he⟩ := ih (⟨.expression, s⟩ :: around)
      rw [Avoids, Machine.evaluateWatched_succ, Watch.guard]
      split
      · exact id
      · exact hlockstep.expression he (hlockstep.call hx he) s

end Exec.Avoids

/-! ## Runs -/

open Classical in
/-- The watch that stops a run at every declaration of the class. -/
noncomputable def Watch.declarations (m : Setup σ) (c : ClassInfo) : Watch σ := fun b _ =>
  if ∃ t, b.Declares m c t then some .exhausted else none

theorem Watch.isSome_declarations {b : Begun σ} {around : List (Begun σ)} :
    (Watch.declarations m c b around).isSome ↔ ∃ t, b.Declares m c t := by
  rw [declarations]
  split
  · rename_i hdeclares
    exact ⟨fun _ => hdeclares, fun _ => rfl⟩
  · rename_i hnot
    exact ⟨fun hsome => (by cases hsome), fun h => absurd h hnot⟩

/-- Wherever a run has come to, a class that is bound there is declared in the run. -/
theorem class_declared {watch : Watch σ} {steps : Nat} {output echoed : Array String} {host : σ}
    {cell : CellId}
    (h : (endState (m.runWatched watch steps (.initial output echoed host))).store.read? cell =
      some (.classInfo c)) :
    m.Sometimes (fun b _ => ∃ t, b.Declares m c t) (.initial output echoed host) := by
  intro hnever
  have hstops : ∀ b around t, b.Declares m c t → (Watch.declarations m c b around).isSome :=
    fun _ _ t hdeclares => Watch.isSome_declarations.2 ⟨t, hdeclares⟩
  -- Where declarations of the class are stopped, the run does not come to it.
  have hlacks : (endState
      (m.runWatched (.declarations m c) steps (.initial output echoed host))).store.Lacks c := by
    have hwatched := (Exec.Avoids.watched hstops steps []).1
    refine (Exec.Avoids.lockstep m c).topLevel hwatched (.refl steps) _ fun cell' => ?_
    rw [State.read?_initial]
    exact nofun
  have hwhole : m.runWatched (.declarations m c) steps (.initial output echoed host) =
      m.runWatched .idle steps (.initial output echoed host) := by
    rw [m.runWatched_idle]
    exact hnever _ (fun _ _ hsome hnot => hnot (Watch.isSome_declarations.1 hsome)) steps
  rw [hwhole] at hlacks
  -- But what has been bound up to a moment is bound at the end of the run.
  have hidle : watch.Stricter .idle := fun _ _ hsome => nomatch hsome
  have hlater := m.later_of_stricter hidle steps output echoed host
  exact hlacks cell (hlater.read?_eq h nofun)

/-- What has begun is the declaration of the class, and the class spans it. If the declaration is
the encoding of a tree, the members begin where their encodings do. -/
def Begun.Records (m : Setup σ) (b : Begun σ) (c : ClassInfo) : Prop :=
  ∃ middle t, b.Declares m c t ∧
    c.Spans m.program.image b.state.position middle t.position ∧
    ∀ symbol fields methods, (Stmt.classDecl symbol fields methods).Encodable →
      m.program.image.Holds b.state.position (Stmt.classDecl symbol fields methods).encode →
        c.fields = Stmt.starts (b.state.position + 9) fields ∧
        middle = b.state.position + 9 + (Stmt.encodeAll fields).length ∧
        c.methods = Stmt.starts (middle + 4) methods ∧
        t.position =
          b.state.position + (Stmt.classDecl symbol fields methods).encode.length

/-- Wherever a run has come to, every class that is bound there is declared by a statement of the
run, and the offsets of its members tile the declaration: the fields increase from behind their
count up to the count of the methods, and the methods from behind this up to where the statement
ends, and each member is passed over up to the next one. They are as many as the counts say, and
where a tree is encoded, they are the members of the tree. -/
theorem classes_tiled (m : Setup σ) (watch : Watch σ) (steps : Nat) (output echoed : Array String)
    (host : σ) (cell : CellId) (c : ClassInfo)
    (h : (endState (m.runWatched watch steps (.initial output echoed host))).store.read? cell =
      some (.classInfo c)) :
    m.Sometimes (fun b _ => b.Records m c) (.initial output echoed host) := by
  refine (class_declared h).mono fun b _ hdeclares => ?_
  obtain ⟨t, hdeclares⟩ := hdeclares
  obtain ⟨middle, hspans⟩ := hdeclares.spans
  exact ⟨middle, t, hdeclares, hspans, fun symbol fields methods hencodable hbytes =>
    hspans.eq_starts hencodable hbytes⟩

/-- A class with two fields and a method. -/
def Stmt.recorded : Stmt :=
  .classDecl ⟨1⟩ [.declare false ⟨2⟩ none, .declare true ⟨3⟩ (some (.literal .null))]
    [.function ⟨4⟩ [⟨5⟩] (.block [.returnValue none])]

/-- Its members are recorded where they begin. -/
theorem classes_tiled_recorded :
    let m := Setup.ofStatement .recorded
    let s := State.initial #[] #[] ()
    ∃ c, (endState (m.runWatched .idle 2 s)).store.read? ⟨0⟩ = some (.classInfo c) ∧
      c.fields = [13, 20] ∧ c.methods = [32] ∧ m.Sometimes (fun b _ => b.Records m c) s := by
  intro m s
  obtain ⟨c, hc, hfields, hmethods⟩ : ∃ c,
      (endState (m.runWatched .idle 2 s)).store.read? ⟨0⟩ = some (.classInfo c) ∧
        c.fields = [13, 20] ∧ c.methods = [32] := ⟨_, by cbv, by cbv, by cbv⟩
  exact ⟨c, hc, hfields, hmethods, classes_tiled m .idle 2 #[] #[] () ⟨0⟩ c hc⟩

/-- A class with two methods, of which the first one imports under a symbol that is not marked. -/
def Stmt.misread : Stmt :=
  .classDecl ⟨1⟩ [] [.importHost ⟨1⟩ (some ⟨0x07070700⟩), .breakLoop]

/-- The import is passed over as if it had no second symbol, and the next method is recorded where
this one stands. There the declaration ends, and the run goes on with what is left of the class. -/
theorem methods_misread :
    let m := Setup.ofStatement .misread
    ∃ c t, m.runFrom 3 (.initial #[] #[] ()) =
        .error (.failed ((Error.of (.strayControlFlow "break")).atOffset 24)) t ∧
      t.store.read? ⟨0⟩ = some (.classInfo c) ∧ m.program.image.Holds 4 Stmt.misread.encode ∧
      c.methods = [17, 23] ∧
      Stmt.starts 17 [.importHost ⟨1⟩ (some ⟨0x07070700⟩), .breakLoop] = [17, 26] :=
  ⟨_, _, by cbv, by cbv, ⟨[], rfl⟩, by cbv, by cbv⟩

end Bytewalk
