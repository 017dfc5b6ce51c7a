import Bytewalk.Proofs.Tree.StatementSimulation

/-!
# The machine declares entities as trees

Functions, classes, modules and imports. Where a function or a class keeps offsets in the machine,
they are the offsets of the addresses that it keeps in the tree.
-/

namespace Bytewalk.Tree

variable {σ : Type} {c : Scene σ} {ctx : Context} {a : Address} {p q : Nat}

/-! ## Functions -/

/-- Parameters are read one by one and bound as the same placeholders. -/
private theorem simulates_params (closure : Scope) {params : List Symbol}
    (hbytes : c.image.Holds p (params.flatMap Word.ofSymbol)) :
    Simulates c ctx p (fun found _ r => found = params ∧ r = p + params.length * 4)
      (Exec.collect (do
        let param ← Exec.decode (Decoder.symbol c.image)
        Exec.bindIn c.setup.program.names closure param .uninitialized
        return param) params.length)
      (params.forM fun param => Eval.bindIn c.trees.names closure param .uninitialized) := by
  induction params generalizing p with
  | nil => exact .pure ⟨rfl, rfl⟩
  | cons param rest ih =>
    rw [List.flatMap_cons] at hbytes
    have hright := hbytes.right
    rw [Word.length_ofSymbol] at hright
    have hfirst : Simulates c ctx p (fun found _ r => found = param ∧ r = p + 4) (do
          let param ← Exec.decode (Decoder.symbol c.image)
          Exec.bindIn c.setup.program.names closure param .uninitialized
          return param)
        (Eval.bindIn c.trees.names closure param .uninitialized) := by
      rw [← bind_pure (Eval.bindIn c.trees.names closure param .uninitialized)]
      refine .decode (Decoder.symbol_of_holds hbytes.left) ?_
      refine (Simulates.bindIn closure param .uninitialized trivial).andThen fun _ => ?_
      exact .pure ⟨rfl, rfl⟩
    refine hfirst.bind fun found _ q h => ?_
    obtain ⟨rfl, rfl⟩ := h
    rw [← bind_pure (List.forM rest _)]
    refine (ih hright).bind fun others _ q h => ?_
    obtain ⟨rfl, rfl⟩ := h
    exact .pure ⟨rfl, by rw [List.length_cons, Nat.succ_mul]; omega⟩

/-- A function is declared with the same parameters, and its body stands where the machine notes
it. -/
theorem simulates_declareFunction {symbol : Symbol} {params : List Symbol} {body : Stmt}
    (hlength : params.length < 2 ^ 31)
    (h : Placed c.image c.program a (.function symbol params body)) :
    Simulates c ctx (offset c.program a + 1)
      (Ends (offset c.program a + (Stmt.function symbol params body).encode.length))
      (Machine.declareFunction c.setup)
      (declareFunction c.trees ctx a symbol params body.normalize) := by
  have hbytes := h.holds
  rw [Stmt.encode, List.append_assoc, List.append_assoc] at hbytes
  have hcount := hbytes.tail.right
  rw [Word.length_ofSymbol] at hcount
  have hparams := hcount.right
  rw [Word.length_ofCount] at hparams
  -- The count is accepted because the parameters themselves follow it.
  have hfits : params.length * 4 ≤ (params.flatMap Word.ofSymbol ++ body.encode).length := by
    rw [List.length_append, Word.length_flatMap_ofSymbol]
    exact Nat.le_add_right _ _
  have hbody : offset c.program a + (bytesBefore (.function symbol params body) .body).length =
      offset c.program a + 1 + 4 + 4 + params.length * 4 := by
    simp only [bytesBefore, List.length_cons, List.length_append, Word.length_ofSymbol,
      Word.length_ofCount, Word.length_flatMap_ofSymbol]
    omega
  have hend : offset c.program a + (Stmt.function symbol params body).encode.length =
      offset c.program a + 1 + 4 + 4 + params.length * 4 + body.encode.length := by
    simp only [Stmt.encode, List.length_cons, List.length_append, Word.length_ofSymbol,
      Word.length_ofCount, Word.length_flatMap_ofSymbol]
    omega
  have hchild : child? (.function symbol params body) .body = some body := rfl
  rw [hend]
  refine .decode (Decoder.symbol_of_holds hbytes.tail.left) ?_
  refine .decode (Decoder.count_of_holds hlength hcount hfits) ?_
  refine Simulates.openScope.andThen fun closure => ?_
  refine (simulates_params closure hparams.left).bind fun found _ q hq => ?_
  obtain ⟨rfl, rfl⟩ := hq
  -- The machine notes where the body stands, and passes over it.
  refine .position (.decode (pass_child h hchild hbody) (.qualify ?_))
  rw [← hbody, ← h.offset_child hchild]
  exact simulates_declare symbol (.function {
    name := ctx.qualify symbol, params := found, body := body.normalize
    address := a.child .body, closure }) ⟨body, h.child hchild, rfl⟩

/-! ## Members -/

section Members

variable {op : StatementOp} {symbol : Symbol} {fields methods : List Stmt} {s : Stmt}

/-- What a declaration with members has inside: its fields, and its methods behind them. -/
structure HasMembers (s : Stmt) (op : StatementOp) (symbol : Symbol)
    (fields methods : List Stmt) : Prop where
  /-- Its encoding. -/
  encode : s.encode = op.byte ::
    (Word.ofSymbol symbol ++ Word.ofCount fields.length ++ Stmt.encodeAll fields
      ++ Word.ofCount methods.length ++ Stmt.encodeAll methods)
  /-- Its fields. -/
  field : ∀ i, child? s (.field i) = fields[i]?
  /-- Its methods. -/
  method : ∀ i, child? s (.method i) = methods[i]?
  /-- The bytes before a field. -/
  beforeField : ∀ i, bytesBefore s (.field i) = bytesBeforeField op symbol fields i
  /-- The bytes before a method. -/
  beforeMethod : ∀ i, bytesBefore s (.method i) = bytesBeforeMethod op symbol fields methods i
  /-- There are few enough fields for a count. -/
  fieldsLength : fields.length < 2 ^ 31
  /-- There are few enough methods for a count. -/
  methodsLength : methods.length < 2 ^ 31

variable (hs : HasMembers s op symbol fields methods) (h : Placed c.image c.program a s)

include hs h

/-- The fields are laid out behind the symbol and their count. -/
theorem HasMembers.lays_fields : c.Lays (offset c.program a + 1 + 4 + 4) fields
    (located (fun i => a.child (.field i)) (Stmt.normalizeAll fields)) := by
  refine c.lays_located (fun i t ht => h.child ((hs.field i).trans ht)) fun i t ht => ?_
  rw [h.offset_child ((hs.field i).trans ht), hs.beforeField]
  simp only [bytesBeforeField, List.length_cons, List.length_append, Word.length_ofSymbol,
    Word.length_ofCount]
  omega

/-- The methods are laid out behind the fields and their count. -/
theorem HasMembers.lays_methods :
    c.Lays (offset c.program a + 1 + 4 + 4 + (Stmt.encodeAll fields).length + 4) methods
      (located (fun i => a.child (.method i)) (Stmt.normalizeAll methods)) := by
  refine c.lays_located (fun i t ht => h.child ((hs.method i).trans ht)) fun i t ht => ?_
  rw [h.offset_child ((hs.method i).trans ht), hs.beforeMethod]
  simp only [bytesBeforeMethod, List.length_cons, List.length_append, Word.length_ofSymbol,
    Word.length_ofCount]
  omega

/-- The symbol and both counts are read. -/
theorem HasMembers.header :
    Decoder.symbol c.image (offset c.program a + 1) = .ok symbol (offset c.program a + 1 + 4) ∧
    Decoder.count c.image 1 (offset c.program a + 1 + 4) =
      .ok fields.length (offset c.program a + 1 + 4 + 4) ∧
    Decoder.count c.image 1
        (offset c.program a + 1 + 4 + 4 + (Stmt.encodeAll fields).length) =
      .ok methods.length
        (offset c.program a + 1 + 4 + 4 + (Stmt.encodeAll fields).length + 4) := by
  have hbytes := h.holds
  rw [hs.encode, List.append_assoc, List.append_assoc, List.append_assoc] at hbytes
  have hfields := hbytes.tail.right
  rw [Word.length_ofSymbol] at hfields
  have hmethods := hfields.right.right
  rw [Word.length_ofCount] at hmethods
  refine ⟨Decoder.symbol_of_holds hbytes.tail.left, ?_, ?_⟩
  · refine Decoder.count_of_holds hs.fieldsLength hfields ?_
    have := Stmt.length_le_encodeAll fields
    simp only [List.length_append]
    omega
  · refine Decoder.count_of_holds hs.methodsLength hmethods ?_
    have := Stmt.length_le_encodeAll methods
    omega

omit h in
/-- The declaration ends behind its methods. -/
theorem HasMembers.offset_end : offset c.program a + s.encode.length =
    offset c.program a + 1 + 4 + 4 + (Stmt.encodeAll fields).length + 4 +
      (Stmt.encodeAll methods).length := by
  rw [hs.encode]
  simp only [List.length_cons, List.length_append, Word.length_ofSymbol, Word.length_ofCount]
  omega

/-! ## Classes -/

/-- A class is declared with members that stand where the machine notes them. -/
theorem simulates_declareClass :
    Simulates c ctx (offset c.program a + 1) (Ends (offset c.program a + s.encode.length))
      (Machine.declareClass c.setup)
      (declare c.trees ctx symbol (.classInfo {
        name := ctx.qualify symbol
        fields := (located (fun i => a.child (.field i)) (Stmt.normalizeAll fields)).map (·.1)
        methods := (located (fun i => a.child (.method i)) (Stmt.normalizeAll methods)).map (·.1)
        closure := ctx.scope })) := by
  obtain ⟨hsymbol, hcountFields, hcountMethods⟩ := hs.header h
  have hfields : Decoder.members c.image (offset c.program a + 1 + 4) = .ok _ _ :=
    (bind_of_ok hcountFields).trans (passMembers_of_lays (hs.lays_fields h))
  have hmethods : Decoder.members c.image
      (offset c.program a + 1 + 4 + 4 + (Stmt.encodeAll fields).length) = .ok _ _ :=
    (bind_of_ok hcountMethods).trans (passMembers_of_lays (hs.lays_methods h))
  rw [hs.offset_end]
  refine .decode hsymbol (.decode hfields (.decode hmethods ?_))
  -- The machine keeps the offsets that have been found, and they are those of the addresses.
  exact (simulates_declare symbol (.classInfo {
    name := ctx.qualify symbol
    fields := (located (fun i => a.child (.field i)) (Stmt.normalizeAll fields)).map (·.1)
    methods := (located (fun i => a.child (.method i)) (Stmt.normalizeAll methods)).map (·.1)
    closure := ctx.scope }) trivial).congr (fun _ => rfl) fun _ => rfl

/-! ## Modules -/

variable {execute : Exec σ Flow} {execute' : Context → Address → Stmt → Eval σ Flow}
  (hexec : c.Executes execute execute')

include hexec

omit hs h in
/-- Members of a module are executed alike, and no signal leads out of them. -/
theorem simulates_moduleMembers {body : List Stmt} {items : List (Address × Stmt)}
    (hcount : Decoder.count c.image 1 p = .ok body.length q) (hlays : c.Lays q body items) :
    Simulates c ctx p (At (q + (Stmt.encodeAll body).length))
      (Machine.moduleMembers c.setup execute) (moduleMembers execute' ctx items) := by
  refine .decode hcount ((simulates_sequence hexec hlays).bind fun flow _ r hr => ?_)
  obtain ⟨rfl, hr⟩ := hr
  cases flow with
  | normal => exact .pure ⟨rfl, hr rfl⟩
  | breakLoop => exact .fail
  | returnValue value => exact .fail

/-- A module is declared after its members have been executed alike. -/
theorem simulates_declareModule :
    Simulates c ctx (offset c.program a + 1) (Ends (offset c.program a + s.encode.length))
      (Machine.declareModule c.setup execute)
      (declareModule c.trees execute' ctx a symbol (Stmt.normalizeAll fields)
        (Stmt.normalizeAll methods)) := by
  obtain ⟨hsymbol, hcountFields, hcountMethods⟩ := hs.header h
  rw [hs.offset_end]
  refine .decode hsymbol (Simulates.openScope.andThen fun scope => ?_)
  have hbody : Simulates c { ctx with modules := ctx.modules ++ [symbol], scope }
      (offset c.program a + 1 + 4)
      (At (offset c.program a + 1 + 4 + 4 + (Stmt.encodeAll fields).length + 4 +
        (Stmt.encodeAll methods).length)) (do
        Machine.moduleMembers c.setup execute
        Machine.moduleMembers c.setup execute)
      (moduleBody execute' { ctx with modules := ctx.modules ++ [symbol], scope } a
        (Stmt.normalizeAll fields) (Stmt.normalizeAll methods)) := by
    refine (simulates_moduleMembers hexec hcountFields (hs.lays_fields h)).andThen fun _ => ?_
    exact simulates_moduleMembers hexec hcountMethods (hs.lays_methods h)
  refine (Simulates.inModule (.inScope hbody)).andThen fun _ => ?_
  exact .qualify (simulates_declare symbol (.module { name := ctx.qualify symbol, scope })
    trivial)

end Members

/-! ## Imports -/

/-- The same function of the host is bound. -/
private theorem simulates_bindHost (source target : Symbol) :
    Simulates c ctx p (Ends p) (Machine.bindHost c.setup source target)
      (importHost c.trees ctx source target) := by
  rw [Machine.bindHost, importHost, show c.trees.names = c.setup.program.names from rfl]
  cases c.setup.program.names.get? source with
  | none => exact .fail
  | some name =>
    dsimp only
    rw [show c.trees.hosts = c.setup.hosts from rfl]
    cases hhost : c.setup.hosts.get? name with
    | none => exact .fail
    | some f =>
      exact .qualify (simulates_declare target (.host (ctx.qualify target) f)
        (List.mem_of_find?_eq_some hhost))

/-- An import binds the same function under the same symbol. -/
theorem simulates_importHost {symbol : Symbol} {target : Option Symbol}
    (htarget : ∀ s ∈ target, s.IsMarked)
    (hbytes : c.image.Holds p
      (Word.ofSymbol symbol ++ (target.map Word.ofSymbol).getD [0])) :
    Simulates c ctx p (Ends (p + 4 + ((target.map Word.ofSymbol).getD [0]).length))
      (Machine.importHost c.setup) (importHost c.trees ctx symbol (target.getD symbol)) := by
  have hright := hbytes.right
  rw [Word.length_ofSymbol] at hright
  rw [Machine.importHost_eq]
  refine .decode (Decoder.symbol_of_holds hbytes.left) ?_
  cases target with
  | none =>
    exact .decode (Decoder.present_of_zero hright.byteAt) (simulates_bindHost symbol symbol)
  | some other =>
    refine .decode (Decoder.present_of_ne_zero ((htarget other rfl).byteAt_ne_zero hright)) ?_
    refine .decode (Decoder.symbol_of_holds hright) ?_
    have h := @simulates_bindHost σ c ctx (p + 4 + 4) symbol other
    simpa using h

end Bytewalk.Tree
