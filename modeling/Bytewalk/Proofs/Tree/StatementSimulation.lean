import Bytewalk.Machine.Statement
import Bytewalk.Proofs.Tree.ExpressionSimulation

/-!
# The machine executes statements as trees

At the offset of every statement of the program the machine executes it as the evaluator of trees
executes the normalized statement. It ends behind the encoding, unless the statement asks for
something; a part that is passed over has no counterpart in the tree.
-/

namespace Bytewalk.Tree

variable {σ : Type} {c : Scene σ} {ctx : Context} {a : Address} {p q : Nat}

/-! ## Statements inside -/

section Children

variable {s child : Stmt} {edge : Edge} (h : Placed c.image c.program a s)

include h

/-- A statement inside another one is passed over. -/
theorem pass_child (hedge : child? s edge = some child)
    (hq : offset c.program a + (bytesBefore s edge).length = q) :
    Decoder.passStatement c.image q = .ok () (q + child.encode.length) := by
  have hchild := h.child hedge
  rw [← hq, ← h.offset_child hedge]
  exact passStatement_eq_ok.2 (hchild.encodable.fills _ hchild.holds)

/-- An optional statement inside another one is passed over. -/
theorem passOptional_child {optional : Option Stmt} (edge : Edge)
    (hedge : child? s edge = optional)
    (hbytes : c.image.Holds q (Stmt.encodeOptional optional)) :
    Decoder.passOptionalStatement c.image q =
      .ok () (q + (Stmt.encodeOptional optional).length) := by
  refine passOptionalStatement_eq_ok.2 (Stmt.fills_encodeOptional (fun x hx => ?_) q hbytes)
  rw [hx] at hedge
  exact (encodable_of_child? h.encodable hedge).fills

variable {execute : Exec σ Flow} {execute' : Context → Address → Stmt → Eval σ Flow}
  (hexec : c.Executes execute execute')

include hexec

/-- A statement inside another one is executed as its tree. -/
theorem simulates_child (hedge : child? s edge = some child)
    (hq : offset c.program a + (bytesBefore s edge).length = q) :
    Simulates c ctx q (Ends (q + child.encode.length)) execute
      (execute' ctx (a.child edge) child.normalize) := by
  rw [← hq, ← h.offset_child hedge]
  exact hexec ctx _ child (h.child hedge)

/-- An optional statement inside another one is executed as its tree. -/
theorem simulates_executeOptional {optional : Option Stmt} (hedge : child? s edge = optional)
    (hbytes : c.image.Holds q (Stmt.encodeOptional optional))
    (hq : offset c.program a + (bytesBefore s edge).length = q) :
    Simulates c ctx q (Ends (q + (Stmt.encodeOptional optional).length))
      (Machine.executeOptional c.setup execute)
      (executeOptional execute' ctx (a.child edge) (Stmt.normalizeOptional optional)) := by
  cases optional with
  | none => exact .decode (Decoder.present_of_zero hbytes.byteAt) (.pure ⟨rfl, fun _ => rfl⟩)
  | some child =>
    have hpass := passStatement_eq_ok.1 (pass_child h hedge hq)
    exact .decode (Decoder.present_of_ne_zero hpass.byteAt_ne_zero)
      (simulates_child h hexec hedge hq)

/-- The step of a loop is executed as its tree. The machine ends behind the step also where the
step leaves the loop. -/
theorem simulates_loopStep {optional : Option Stmt} (hedge : child? s edge = optional)
    (hbytes : c.image.Holds q (Stmt.encodeOptional optional))
    (hq : offset c.program a + (bytesBefore s edge).length = q) :
    Simulates c ctx q
      (fun flow flow' r => flow = flow' ∧
        (flow = .normal ∨ flow = .breakLoop → r = q + (Stmt.encodeOptional optional).length))
      (Machine.loopStep c.setup execute)
      (executeOptional execute' ctx (a.child edge) (Stmt.normalizeOptional optional)) := by
  -- Where the step leaves the loop the machine has more to do than the evaluator.
  rw [← bind_pure (executeOptional execute' ctx (a.child edge) _)]
  refine .position ((simulates_executeOptional h hexec hedge hbytes hq).bind fun flow _ r hr => ?_)
  obtain ⟨rfl, hend⟩ := hr
  cases flow with
  | normal => exact .pure ⟨rfl, fun _ => hend rfl⟩
  | breakLoop =>
    exact .seek (.decode (passOptional_child h edge hedge hbytes) (.pure ⟨rfl, fun _ => rfl⟩))
  | returnValue value => exact .pure ⟨rfl, fun h => by simp at h⟩

end Children

/-! ## Statements one behind the other -/

/-- The items are the normalized forms of statements that stand in the program one behind the
other from an offset on. -/
inductive Scene.Lays (c : Scene σ) : Nat → List Stmt → List (Address × Stmt) → Prop
  | nil {p : Nat} : c.Lays p [] []
  | cons {a : Address} {s : Stmt} {rest : List Stmt} {items : List (Address × Stmt)}
      (hplaced : Placed c.image c.program a s)
      (hrest : c.Lays (offset c.program a + s.encode.length) rest items) :
      c.Lays (offset c.program a) (s :: rest) ((a, s.normalize) :: items)

/-- Statements are laid out from the offset of the first one on if each stands behind those before
it. -/
theorem Scene.lays_located {body : List Stmt} {place : Nat → Address}
    (hplaced : ∀ i s, body[i]? = some s → Placed c.image c.program (place i) s)
    (hoffset : ∀ i s, body[i]? = some s →
      offset c.program (place i) = p + (Stmt.encodeAll (body.take i)).length) :
    c.Lays p body (located place (Stmt.normalizeAll body)) := by
  -- The others stand behind the first one, and their places are counted from one on.
  induction body generalizing place p with
  | nil => exact .nil
  | cons s rest ih =>
    have hfirst : offset c.program (place 0) = p := hoffset 0 s rfl
    have hrest : c.Lays (p + s.encode.length) rest
        (located (fun i => place (i + 1)) (Stmt.normalizeAll rest)) := by
      refine ih (fun i t ht => hplaced (i + 1) t ht) fun i t ht => ?_
      rw [hoffset (i + 1) t ht, List.take_succ_cons, Stmt.encodeAll, List.length_append,
        Nat.add_assoc]
    rw [← hfirst] at hrest ⊢
    exact .cons (hplaced 0 s rfl) hrest

/-- Members that are laid out are found where they stand. -/
theorem passMembers_of_lays {body : List Stmt} {items : List (Address × Stmt)}
    (h : c.Lays p body items) :
    Decoder.passMembers c.image body.length p =
      .ok ((items.map (·.1)).map (offset c.program)) (p + (Stmt.encodeAll body).length) := by
  induction h with
  | nil => rfl
  | @cons a s rest items hplaced _ ih =>
    have hpass := passStatement_eq_ok.2 (hplaced.encodable.fills _ hplaced.holds)
    rw [List.length_cons, Decoder.passMembers, Stmt.encodeAll, List.length_append, ← Nat.add_assoc]
    exact (bind_of_ok rfl).trans ((bind_of_ok hpass).trans (bind_of_ok ih))

/-- Statements that are laid out are executed as their trees, up to the first that asks for
something. -/
theorem simulates_sequence {execute : Exec σ Flow}
    {execute' : Context → Address → Stmt → Eval σ Flow} (hexec : c.Executes execute execute')
    {body : List Stmt} {items : List (Address × Stmt)} (h : c.Lays p body items) :
    Simulates c ctx p (Ends (p + (Stmt.encodeAll body).length))
      (Exec.sequence execute body.length) (sequence execute' ctx items) := by
  induction h with
  | nil => exact .pure ⟨rfl, fun _ => rfl⟩
  | @cons a s rest items hplaced _ ih =>
    rw [List.length_cons, Exec.sequence_succ, sequence, Stmt.encodeAll, List.length_append,
      ← Nat.add_assoc]
    refine (hexec ctx a s hplaced).bind fun flow _ q hflow => ?_
    obtain ⟨rfl, hend⟩ := hflow
    cases flow with
    | normal => exact hend rfl ▸ ih
    | breakLoop => exact .pure ⟨rfl, fun h => by cases h⟩
    | returnValue value => exact .pure ⟨rfl, fun h => by cases h⟩

/-! ## Statements -/

section Statements

variable {execute : Exec σ Flow} {execute' : Context → Address → Stmt → Eval σ Flow}
  {evaluate : Exec σ Operand} {evaluate' : Context → Expr → Eval σ Operand}
  (hexec : c.Executes execute execute') (heval : c.Evaluates evaluate evaluate')

/-- The qualified name of a symbol is the same. -/
theorem Simulates.qualify {α β : Type} {R : α → β → Nat → Prop} {s : Symbol}
    {k : QualifiedName → Exec σ α} {y : Eval σ β}
    (hk : Simulates c ctx p R (k (ctx.qualify s)) y) :
    Simulates c ctx p R (Exec.qualify s >>= k) y :=
  hk.congr (fun _ => rfl) fun _ => rfl

/-- An entity is declared alike. -/
theorem simulates_declare (symbol : Symbol) (binding : Binding σ) (hadmits : c.Admits binding) :
    Simulates c ctx p (Ends p) (do
        Exec.bindHere c.setup.program.names symbol (binding.lower c.program)
        return .normal)
      (declare c.trees ctx symbol binding) := by
  have hbind : Simulates c ctx p (At p)
      (Exec.bindHere c.setup.program.names symbol (binding.lower c.program))
      (Eval.bindIn c.trees.names ctx.scope symbol binding) :=
    (Simulates.bindIn ctx.scope symbol binding hadmits).congr (fun _ => rfl) fun _ => rfl
  refine hbind.andThen fun _ => ?_
  exact .pure ⟨rfl, fun _ => rfl⟩

/-- The printed form of a binding is the same. -/
theorem render_lower (program : List Stmt) (names : NameTable) (binding : Binding σ) :
    (binding.lower program).render names = binding.render names := by
  cases binding <;> rfl

/-- A line is added to the same lines. -/
theorem simulates_emit (line : String) :
    Simulates c ctx p (At p) (Machine.emitLine c.setup line) (Eval.emit line) := by
  rw [Simulates]
  intro w hw
  have h : Outcomes c ctx (At p) _ (Eval.emit line w) :=
    .ok (a := ()) (w := { w with lines := w.lines.push line }) hw ⟨rfl, rfl⟩
  rw [Machine.emitLine_eq]
  by_cases hecho : c.setup.config.echo
  · simpa [Scene.state, hecho] using h
  · simpa [Scene.state, hecho] using h

include heval in
/-- A condition is evaluated alike. -/
theorem simulates_condition {test : Expr} (hbytes : c.image.Holds p test.encode)
    (htest : test.Encodable) :
    Simulates c ctx p (At (p + test.encode.length)) (Machine.condition evaluate)
      (condition evaluate' ctx test.normalize) := by
  refine (simulates_evaluateValue heval hbytes htest).andThen fun v => ?_
  exact .lift fun _ => isOverTypes_of_truthy

include heval in
/-- A statement that prints prints the same line. -/
theorem simulates_print {value : Expr} (hbytes : c.image.Holds p value.encode)
    (hvalue : value.Encodable) :
    Simulates c ctx p (Ends (p + value.encode.length)) (Machine.print c.setup evaluate)
      (do
        let binding ← Eval.bindingOf (← evaluate' ctx value.normalize)
        Eval.emit (binding.render c.trees.names)
        return .normal) := by
  refine (heval ctx p value hbytes hvalue).andThen fun operand => ?_
  refine (Simulates.bindingOf operand).bind fun binding binding' q h => ?_
  obtain ⟨rfl, rfl⟩ := h
  rw [render_lower]
  refine (simulates_emit _).andThen fun _ => ?_
  exact .pure ⟨rfl, fun _ => rfl⟩

include hexec heval in
/-- The same one of two statements is executed. -/
theorem simulates_branch {test : Expr} {positive : Stmt} {negative : Option Stmt}
    (htest : test.Encodable)
    (h : Placed c.image c.program a (.branch test positive negative)) :
    Simulates c ctx (offset c.program a + 1)
      (Ends (offset c.program a + (Stmt.branch test positive negative).encode.length))
      (Machine.branch c.setup execute evaluate)
      (branch execute' evaluate' ctx a test.normalize positive.normalize
        (Stmt.normalizeOptional negative)) := by
  have hbytes := h.holds
  rw [Stmt.encode, List.append_assoc] at hbytes
  have hnegative := hbytes.tail.right.right
  have hend : offset c.program a + (Stmt.branch test positive negative).encode.length =
      offset c.program a + 1 + test.encode.length + positive.encode.length +
        (Stmt.encodeOptional negative).length := by
    simp only [Stmt.encode, List.length_cons, List.length_append]
    omega
  have hpositive : offset c.program a + (bytesBefore (.branch test positive negative)
      .positive).length = offset c.program a + 1 + test.encode.length := by
    simp only [bytesBefore, List.length_cons]
    omega
  have hother : offset c.program a + (bytesBefore (.branch test positive negative)
      .negative).length = offset c.program a + 1 + test.encode.length + positive.encode.length := by
    simp only [bytesBefore, List.length_cons, List.length_append]
    omega
  rw [hend]
  refine (simulates_condition heval hbytes.tail.left htest).andThen fun holds => ?_
  cases holds with
  | true =>
    -- Behind the one statement the machine passes over the other.
    simp only [↓reduceIte]
    rw [← bind_pure (execute' ctx (a.child .positive) _)]
    refine (simulates_child h hexec rfl hpositive).bind fun flow _ r hr => ?_
    obtain ⟨rfl, hr⟩ := hr
    cases flow with
    | normal =>
      rw [hr rfl]
      exact .decode (passOptional_child h .negative rfl hnegative) (.pure ⟨rfl, fun _ => rfl⟩)
    | breakLoop => exact .pure ⟨rfl, fun h => by cases h⟩
    | returnValue value => exact .pure ⟨rfl, fun h => by cases h⟩
  | false =>
    exact .decode (pass_child h rfl hpositive)
      (simulates_executeOptional h hexec rfl hnegative hother)

include heval in
/-- A variable is declared alike. -/
theorem simulates_variable {constant : Bool} {symbol : Symbol} {initial : Option Expr}
    (hinitial : ∀ e ∈ initial, e.Encodable)
    (hbytes : c.image.Holds p ((if constant then 1 else 0) ::
      (Word.ofSymbol symbol ++ Expr.encodeOptional initial))) :
    Simulates c ctx p (Ends (p + 1 + 4 + (Expr.encodeOptional initial).length))
      (Machine.declare c.setup evaluate) (do
        declare c.trees ctx symbol (.variable constant
          (← evaluateOptional evaluate' ctx (initial.map Expr.normalize)))) := by
  have hvalue := hbytes.tail.right
  rw [Word.length_ofSymbol] at hvalue
  refine .decode (Decoder.byte_of_holds hbytes) ?_
  refine .decode (Decoder.symbol_of_holds hbytes.tail.left) ?_
  refine (simulates_evaluateOptional heval hvalue hinitial).andThen fun value => ?_
  -- The flag is one byte, which is zero for a variable and one for a constant.
  have hflag : decide ((if constant then 1 else 0 : UInt8) ≠ 0) = constant := by
    cases constant <;> rfl
  rw [hflag]
  exact simulates_declare symbol (.variable constant value) trivial

include heval in
/-- The same variable is assigned the same value, or refused. -/
theorem simulates_assign {symbol : Symbol} {value : Expr} (hvalue : value.Encodable)
    (hbytes : c.image.Holds p (Word.ofSymbol symbol ++ value.encode)) :
    Simulates c ctx p (Ends (p + 4 + value.encode.length)) (Machine.assign c.setup evaluate)
      (assign c.trees evaluate' ctx symbol value.normalize) := by
  have hright := hbytes.right
  rw [Word.length_ofSymbol] at hright
  refine .decode (Decoder.symbol_of_holds hbytes.left) ?_
  refine (Simulates.resolve symbol).andThen fun cell => ?_
  refine (Simulates.read cell).bind fun binding binding' q h => ?_
  obtain ⟨rfl, rfl, -⟩ := h
  cases binding' with
  | «variable» constant old =>
    cases constant with
    | true => exact .fail
    | false =>
      refine (simulates_evaluateValue heval hright hvalue).andThen fun result => ?_
      refine (Simulates.write cell false result).andThen fun _ => ?_
      exact .pure ⟨rfl, fun _ => rfl⟩
  | _ => exact .fail

include hexec in
/-- The statements of a block are executed alike. -/
theorem simulates_block {body : List Stmt} (hlength : body.length < 2 ^ 31)
    (h : Placed c.image c.program a (.block body)) :
    Simulates c ctx (offset c.program a + 1)
      (Ends (offset c.program a + (Stmt.block body).encode.length))
      (Machine.block c.setup execute) (do
        let inner := { ctx with scope := ← Eval.openScope ctx.scope }
        sequence execute' inner
          (located (fun i => a.child (.item i)) (Stmt.normalizeAll body))) := by
  have hbytes := h.holds
  rw [Stmt.encode] at hbytes
  have hcount : Decoder.count c.image 1 (offset c.program a + 1) =
      .ok body.length (offset c.program a + 1 + 4) :=
    Decoder.count_of_holds hlength hbytes.tail
      (by rw [Nat.mul_one]; exact Stmt.length_le_encodeAll body)
  have hlays : c.Lays (offset c.program a + 1 + 4) body
      (located (fun i => a.child (.item i)) (Stmt.normalizeAll body)) := by
    refine c.lays_located (fun i s hs => h.child hs) fun i s hs => ?_
    have hedge : child? (.block body) (.item i) = some s := hs
    rw [h.offset_child hedge]
    simp only [bytesBefore, List.length_cons, List.length_append, Word.length_ofCount]
    omega
  have hend : offset c.program a + (Stmt.block body).encode.length =
      offset c.program a + 1 + 4 + (Stmt.encodeAll body).length := by
    simp only [Stmt.encode, List.length_cons, List.length_append, Word.length_ofCount]
    omega
  rw [hend]
  refine .decode hcount (Simulates.openScope.andThen fun scope => ?_)
  exact .inScope (simulates_sequence hexec hlays)

include hexec heval in
/-- A turn of a loop decides alike how to go on. When the loop ends, the machine is behind it. -/
theorem simulates_loopTurn {initial step : Option Stmt} {test : Expr} {body : Stmt} {start : Nat}
    (htest : test.Encodable) (h : Placed c.image c.program a (.loop initial test body step))
    (hstart : start = offset c.program a + 1 + (Stmt.encodeOptional initial).length) :
    Simulates c ctx p
      (Simulates.Turns (Ends (start + test.encode.length + body.encode.length +
        (Stmt.encodeOptional step).length)))
      (Machine.loopTurn c.setup execute evaluate start)
      (loopTurn execute' evaluate' ctx a test.normalize body.normalize
        (Stmt.normalizeOptional step)) := by
  have hbytes := h.holds
  rw [Stmt.encode, List.append_assoc, List.append_assoc] at hbytes
  have htail := hbytes.tail.right
  rw [← hstart] at htail
  have hbody : offset c.program a + (bytesBefore (.loop initial test body step) .body).length =
      start + test.encode.length := by
    simp only [bytesBefore, List.length_cons, List.length_append]
    omega
  have hstep : offset c.program a + (bytesBefore (.loop initial test body step) .step).length =
      start + test.encode.length + body.encode.length := by
    simp only [bytesBefore, List.length_cons, List.length_append]
    omega
  have hrest := htail.right.right
  have hpassBody := @pass_child σ c a _ _ body .body h rfl hbody
  refine .seek ((simulates_condition heval htail.left htest).andThen fun holds => ?_)
  cases holds with
  | true =>
    refine .position ((simulates_child h hexec rfl hbody).bind fun flow _ r hr => ?_)
    obtain ⟨rfl, hr⟩ := hr
    cases flow with
    | normal =>
      rw [hr rfl]
      refine (simulates_loopStep h hexec rfl hrest hstep).bind fun last _ r' hr' => ?_
      obtain ⟨rfl, hr'⟩ := hr'
      cases last with
      | normal => exact .pure .again
      | breakLoop => exact .pure (.done ⟨rfl, fun _ => hr' (.inr rfl)⟩)
      | returnValue value => exact .pure (.done ⟨rfl, fun h => by cases h⟩)
    | breakLoop =>
      -- The body was left somewhere inside; only the machine goes back and passes over it.
      refine .seek (.decode hpassBody ?_)
      refine (simulates_loopStep h hexec rfl hrest hstep).bind fun last _ r' hr' => ?_
      obtain ⟨rfl, hr'⟩ := hr'
      cases last with
      | normal => exact .pure (.done ⟨rfl, fun _ => hr' (.inl rfl)⟩)
      | breakLoop => exact .pure (.done ⟨rfl, fun _ => hr' (.inr rfl)⟩)
      | returnValue value => exact .pure (.done ⟨rfl, fun h => by cases h⟩)
    | returnValue value => exact .pure (.done ⟨rfl, fun h => by cases h⟩)
  | false =>
    -- The loop ends behind its step, which neither side executes any more.
    refine .decode hpassBody (.decode (passOptional_child h .step rfl hrest) ?_)
    exact .pure (.done ⟨rfl, fun _ => rfl⟩)

include hexec heval in
/-- A loop makes the same turns. -/
theorem simulates_loop (turns : Nat) {initial step : Option Stmt} {test : Expr} {body : Stmt}
    (htest : test.Encodable) (h : Placed c.image c.program a (.loop initial test body step)) :
    Simulates c ctx (offset c.program a + 1)
      (Ends (offset c.program a + (Stmt.loop initial test body step).encode.length))
      (Machine.loop c.setup execute evaluate turns)
      (loop execute' evaluate' turns ctx a (Stmt.normalizeOptional initial) test.normalize
        body.normalize (Stmt.normalizeOptional step)) := by
  have hbytes := h.holds
  rw [Stmt.encode, List.append_assoc, List.append_assoc] at hbytes
  have hinitial : offset c.program a +
      (bytesBefore (.loop initial test body step) .initial).length = offset c.program a + 1 := rfl
  have hend : offset c.program a + (Stmt.loop initial test body step).encode.length =
      offset c.program a + 1 + (Stmt.encodeOptional initial).length + test.encode.length +
        body.encode.length + (Stmt.encodeOptional step).length := by
    simp only [Stmt.encode, List.length_cons, List.length_append]
    omega
  rw [hend]
  refine Simulates.openScope.andThen fun scope => ?_
  refine .inScope ((simulates_executeOptional h hexec rfl hbytes.tail.left hinitial).bind
    fun flow _ r hr => ?_)
  obtain ⟨rfl, hr⟩ := hr
  cases flow with
  | normal =>
    rw [hr rfl]
    -- A turn may begin at any offset, since it goes back to the condition first.
    exact .position (Simulates.iterate
      (fun _ => simulates_loopTurn hexec heval htest h rfl) turns _)
  | breakLoop => exact .pure ⟨rfl, fun h => by cases h⟩
  | returnValue value => exact .pure ⟨rfl, fun h => by cases h⟩

end Statements

end Bytewalk.Tree
