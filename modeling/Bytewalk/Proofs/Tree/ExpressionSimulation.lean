import Bytewalk.Proofs.Tree.Simulation

/-!
# The machine evaluates expressions as trees

At an offset where the image holds the encoding of an expression, the machine evaluates it as the
evaluator of trees evaluates the normalized expression, and ends behind the encoding. The parts
inside are left to executions and evaluations that do so already.
-/

namespace Bytewalk.Tree

variable {σ : Type} {c : Scene σ} {ctx : Context} {p : Nat}

/-! ## Elementary parts -/

/-- The module that an operand names is the same. -/
theorem simulates_moduleOf (operand : Operand) :
    Simulates c ctx p (At p) (Machine.moduleOf operand) (moduleOf operand) := by
  cases operand with
  | value v => exact .fail
  | cell cell =>
    refine (Simulates.read cell).bind fun a b q h => ?_
    obtain ⟨rfl, rfl, -⟩ := h
    cases b with
    | module info => exact .pure ⟨rfl, rfl⟩
    | _ => exact .fail

/-- Executions for the items of a list simulate evaluations for them. -/
theorem Simulates.forM {ι : Type} {f : ι → Exec σ PUnit} {g : ι → Eval σ PUnit}
    (h : ∀ i, Simulates c ctx p (At p) (f i) (g i)) (items : List ι) :
    Simulates c ctx p (At p) (items.forM f) (items.forM g) := by
  induction items with
  | nil => exact .pure ⟨rfl, rfl⟩
  | cons i rest ih =>
    refine (h i).bind fun a b q hrel => ?_
    obtain ⟨-, rfl⟩ := hrel
    exact ih

/-! ## Expressions inside -/

section Evaluation

variable {evaluate : Exec σ Operand} {evaluate' : Context → Expr → Eval σ Operand}
  (heval : c.Evaluates evaluate evaluate')

include heval

/-- An expression is evaluated to the same value. -/
theorem simulates_evaluateValue {e : Expr} (hbytes : c.image.Holds p e.encode)
    (he : e.Encodable) :
    Simulates c ctx p (At (p + e.encode.length)) (Machine.evaluateValue evaluate)
      (evaluateValue evaluate' ctx e.normalize) := by
  refine (heval ctx p e hbytes he).andThen fun a => ?_
  exact .valueOf a

/-- An optional expression is evaluated to the same value. -/
theorem simulates_evaluateOptional {e : Option Expr}
    (hbytes : c.image.Holds p (Expr.encodeOptional e)) (he : ∀ x ∈ e, x.Encodable) :
    Simulates c ctx p (At (p + (Expr.encodeOptional e).length))
      (Machine.evaluateOptional c.setup evaluate)
      (evaluateOptional evaluate' ctx (e.map Expr.normalize)) := by
  cases e with
  | none =>
    exact .decode (Decoder.present_of_zero hbytes.byteAt) (.pure ⟨rfl, rfl⟩)
  | some e =>
    have hencodable := he e rfl
    have hne := (hencodable.fills p hbytes).byteAt_ne_zero
    exact .decode (Decoder.present_of_ne_zero hne)
      (simulates_evaluateValue heval hbytes hencodable)

/-- Arguments are evaluated to the same values. -/
theorem simulates_evaluateAll {args : List Expr} (he : ∀ e ∈ args, e.Encodable)
    (hbytes : c.image.Holds p (Expr.encodeAll args)) :
    Simulates c ctx p (At (p + (Expr.encodeAll args).length))
      (Exec.collect (Machine.evaluateValue evaluate) args.length)
      (evaluateAll evaluate' ctx (Expr.normalizeAll args)) := by
  induction args generalizing p with
  | nil => exact .pure ⟨rfl, rfl⟩
  | cons e rest ih =>
    have hfirst : e.Encodable := he e List.mem_cons_self
    refine (simulates_evaluateValue heval hbytes.left hfirst).andThen fun a => ?_
    have hrest := ih (fun x hx => he x (List.mem_cons_of_mem e hx)) hbytes.right
    refine hrest.andThen fun others => ?_
    exact .pure ⟨rfl, by rw [Expr.encodeAll, List.length_append, Nat.add_assoc]⟩

/-- A unary operator is applied to the same value. -/
theorem simulates_unary {op : UnaryOp} {operand : Expr} (hoperand : operand.Encodable)
    (hbytes : c.image.Holds p (op.byte :: operand.encode)) :
    Simulates c ctx p (At (p + 1 + operand.encode.length)) (Machine.unary c.setup evaluate)
      (unary evaluate' ctx op operand.normalize) := by
  refine .decode (Decoder.byte_of_holds hbytes) ?_
  rw [UnaryOp.ofByte?_byte]
  refine (simulates_evaluateValue heval hbytes.tail hoperand).andThen fun a => ?_
  exact .lift fun _ => isOverTypes_of_unary

/-- A binary operator is applied to the same values. -/
theorem simulates_binary {op : BinaryOp} {left right : Expr} (hleft : left.Encodable)
    (hright : right.Encodable)
    (hbytes : c.image.Holds p (op.byte :: (left.encode ++ right.encode))) :
    Simulates c ctx p (At (p + 1 + left.encode.length + right.encode.length))
      (Machine.binary c.setup evaluate)
      (binary evaluate' ctx op left.normalize right.normalize) := by
  refine .decode (Decoder.byte_of_holds hbytes) ?_
  rw [BinaryOp.ofByte?_byte]
  refine (heval ctx _ left hbytes.tail.left hleft).andThen fun l => ?_
  refine (heval ctx _ right hbytes.tail.right hright).andThen fun r => ?_
  -- Behind both operands nothing is read, so that the offset does not matter.
  have happly : ∀ q, Simulates c ctx q (At q) (do
      let a ← Exec.valueOf l
      let b ← Exec.valueOf r
      Exec.lift (op.apply a b)) (do
      let a ← Eval.valueOf l
      let b ← Eval.valueOf r
      Eval.lift (op.apply a b)) := by
    intro q
    refine (Simulates.valueOf l).andThen fun a => ?_
    refine (Simulates.valueOf r).andThen fun b => ?_
    exact .lift fun _ => isOverTypes_of_binary
  by_cases hmember : op = .member
  · simp only [hmember, ↓reduceIte]
    refine (simulates_moduleOf l).andThen fun _ => ?_
    exact hmember ▸ happly _
  · simp only [hmember, ↓reduceIte]
    exact happly _

/-- An expression in a module is evaluated in the scope of the same module. -/
theorem simulates_accessor {module inner : Expr} (hmodule : module.Encodable)
    (hinner : inner.Encodable) (hbytes : c.image.Holds p (module.encode ++ inner.encode)) :
    Simulates c ctx p (At (p + module.encode.length + inner.encode.length))
      (Machine.accessor evaluate)
      (accessor evaluate' ctx module.normalize inner.normalize) := by
  refine (heval ctx p module hbytes.left hmodule).andThen fun operand => ?_
  refine (simulates_moduleOf operand).andThen fun info => ?_
  exact .inScope (heval _ _ inner hbytes.right hinner)

end Evaluation

/-! ## Calls -/

section Calls

variable {execute : Exec σ Flow} {execute' : Context → Address → Stmt → Eval σ Flow}
  (hexec : c.Executes execute execute')

/-- The machine keeps of a function the offset of its body. -/
def Function.lower (program : List Stmt) (f : Function) : Bytewalk.Function where
  name := f.name
  params := f.params
  body := offset program f.address
  closure := f.closure

/-- A frame is opened with the same variables. -/
theorem simulates_openFrame (f : Function) (args : List Value) :
    Simulates c ctx p (At p) (Machine.openFrame c.setup (f.lower c.program) args)
      (openFrame c.trees f args) := by
  have hbinds : ∀ frame, Simulates c ctx p (At p)
      (Machine.bindArguments c.setup (f.lower c.program) args frame) (do
        (f.params.zip args).forM fun i =>
          Eval.bindIn c.trees.names frame i.1 (.variable false i.2)
        return frame) := by
    intro frame
    have hbind : ∀ i : Symbol × Value, Simulates c ctx p (At p)
        (Exec.bindIn c.setup.program.names frame i.1 (.variable false i.2))
        (Eval.bindIn c.trees.names frame i.1 (.variable false i.2)) :=
      fun i => .bindIn frame i.1 (.variable false i.2) trivial
    refine (Simulates.forM hbind _).andThen fun _ => ?_
    exact .pure ⟨rfl, rfl⟩
  -- Which frame is opened depends on the world.
  rw [Simulates]
  intro w hw
  have h := hbinds (w.store.newChild f.closure).1
  rw [Simulates] at h
  exact h { w with store := (w.store.newChild f.closure).2 } hw

include hexec

/-- The body of a function is executed in the same frame, and the caller goes on where it was. -/
theorem simulates_enter {f : Function} (frame : Scope) (hf : c.Finds f.address f.body) :
    Simulates c ctx p (At p) (Machine.enter c.setup execute (f.lower c.program) frame)
      (enter c.trees execute' ctx f frame) := by
  obtain ⟨s, hplaced, hbody⟩ := hf
  refine .mapError ?_ ?_
  · -- The frame is added to what the body fails with, whoever is to blame.
    rintro e failure (⟨hcause, hblamed, hframes⟩)
    refine .failed hcause (by simpa [Failure.inFrame] using hblamed) ?_
    rw [Error.frames_inFrame, hframes]
    rfl
  · have hcall := Simulates.inCall (p := p) (hexec {
      scope := frame, modules := f.name.parent, depth := ctx.depth + 1 } f.address s hplaced)
    rw [← hbody] at hcall
    refine hcall.bind fun flow _ q h => ?_
    obtain ⟨⟨_, rfl, -⟩, rfl⟩ := h
    cases flow with
    | normal => exact .pure ⟨rfl, rfl⟩
    | breakLoop => exact .fail
    | returnValue value => exact .pure ⟨rfl, rfl⟩

/-- A function of the program is called alike. -/
theorem simulates_invoke {f : Function} (args : List Value) (hf : c.Finds f.address f.body) :
    Simulates c ctx p (At p) (Machine.invoke c.setup execute (f.lower c.program) args)
      (invoke c.trees execute' ctx f args) := by
  have hframe : Simulates c ctx p (At p)
      (Machine.openFrame c.setup (f.lower c.program) args >>=
        Machine.enter c.setup execute (f.lower c.program))
      (openFrame c.trees f args >>= enter c.trees execute' ctx f) := by
    refine (simulates_openFrame f args).andThen fun frame => ?_
    exact simulates_enter hexec frame hf
  rw [Simulates] at hframe ⊢
  intro w hw
  rw [invoke]
  by_cases hlength : args.length = f.params.length
  · rw [if_neg (not_not_intro hlength)]
    rcases Nat.lt_or_ge ctx.depth c.setup.config.maxCallDepth with hdepth | hdepth
    · have hrun : Machine.invoke c.setup execute (f.lower c.program) args (c.state ctx p w) = _ :=
        Machine.invoke_of_depth_lt hlength hdepth
      rw [hrun, if_neg (show ¬ c.trees.config.maxCallDepth ≤ ctx.depth from Nat.not_le.2 hdepth)]
      exact hframe w hw
    · have hrun : Machine.invoke c.setup execute (f.lower c.program) args (c.state ctx p w) = _ :=
        Machine.invoke_of_depth_le hlength hdepth
      rw [hrun, if_pos (show c.trees.config.maxCallDepth ≤ ctx.depth from hdepth)]
      exact .error (.failed rfl .none rfl)
  · have hrun : Machine.invoke c.setup execute (f.lower c.program) args (c.state ctx p w) = _ :=
      Machine.invoke_of_length_ne hlength
    rw [hrun, if_pos hlength]
    exact .error (.failed rfl .none rfl)

omit hexec in
/-- A function of the host that can be imported is called alike. It is to blame for its errors if
they have offsets. -/
theorem simulates_callHost {f : HostFunction σ} (hf : f ∈ c.setup.hosts.functions)
    (args : List Value) :
    Simulates c ctx p (At p) (Machine.callHost f args) (callHost f args) := by
  rw [Simulates]
  intro w hw
  have hhost : (c.state ctx p w).host = w.host := rfl
  rw [Machine.callHost, callHost, hhost]
  rcases hcall : f.call args w.host with ⟨result, after⟩
  cases result with
  | ok value => exact .ok (w := { w with host := after }) hw ⟨rfl, rfl⟩
  | error e =>
    refine .error (w := { w with host := after }) (.failed rfl ?_ rfl)
    rw [Failure.ofError]
    cases hoffset : e.offset with
    | none => exact .none
    | some n =>
      refine .some (.host hf ⟨args, w.host, e, after, ?_, hoffset⟩)
      -- An error over the number of arguments has no offset.
      rw [HostFunction.call] at hcall
      split at hcall
      · exact hcall
      · cases hcall
        cases hoffset

variable {evaluate : Exec σ Operand} {evaluate' : Context → Expr → Eval σ Operand}
  (heval : c.Evaluates evaluate evaluate')

include heval

/-- A call evaluates the same arguments and calls the same function. -/
theorem simulates_call {callee : Symbol} {args : List Expr} (hlength : args.length < 2 ^ 31)
    (hargs : ∀ e ∈ args, e.Encodable)
    (hbytes : c.image.Holds p
      (Word.ofSymbol callee ++ Word.ofCount args.length ++ Expr.encodeAll args)) :
    Simulates c ctx p (At (p + 4 + 4 + (Expr.encodeAll args).length))
      (Machine.call c.setup execute evaluate)
      (call c.trees execute' evaluate' ctx callee (Expr.normalizeAll args)) := by
  rw [List.append_assoc] at hbytes
  have hcount := hbytes.right
  rw [Word.length_ofSymbol] at hcount
  have hitems := hcount.right
  rw [Word.length_ofCount] at hitems
  -- Every argument takes a byte at least, so that the count is accepted.
  have hfits : args.length * 1 ≤ (Expr.encodeAll args).length := by
    rw [Nat.mul_one]
    exact Expr.length_le_encodeAll args
  refine .decode (Decoder.symbol_of_holds hbytes.left) ?_
  refine .decode (Decoder.count_of_holds hlength hcount hfits) ?_
  refine (simulates_evaluateAll heval hargs hitems).andThen fun values => ?_
  refine (Simulates.resolve callee).andThen fun cell => ?_
  refine (Simulates.read cell).bind fun binding binding' q h => ?_
  obtain ⟨rfl, rfl, hadmits⟩ := h
  cases binding' with
  | function f => exact simulates_invoke hexec values hadmits
  | host name f => exact simulates_callHost hadmits values
  | _ => exact .fail

/-- An expression is evaluated as its tree. -/
theorem simulates_expression {e : Expr} (he : e.Encodable) (hbytes : c.image.Holds p e.encode) :
    Simulates c ctx p (At (p + e.encode.length))
      (Machine.expression c.setup evaluate (Machine.call c.setup execute evaluate))
      (expression c.trees execute' evaluate' ctx e.normalize) := by
  cases he with
  | literal value =>
    refine .decode (Decoder.byte_of_holds hbytes) ?_
    refine .decode (Decoder.literal_of_holds hbytes.tail) (.pure ⟨rfl, ?_⟩)
    simp only [Expr.encode, List.length_cons]
    omega
  | «variable» symbol =>
    refine .decode (Decoder.byte_of_holds hbytes) ?_
    refine .decode (Decoder.symbol_of_holds hbytes.tail) ?_
    refine (Simulates.resolve symbol).andThen fun cell => ?_
    exact .pure ⟨rfl, rfl⟩
  | @unary op operand hoperand =>
    refine .decode (Decoder.byte_of_holds hbytes) ?_
    refine (simulates_unary heval hoperand hbytes.tail).andThen fun value => ?_
    refine .pure ⟨rfl, ?_⟩
    simp only [Expr.encode, List.length_cons]
    omega
  | @binary op left right hleft hright =>
    refine .decode (Decoder.byte_of_holds hbytes) ?_
    refine (simulates_binary heval hleft hright hbytes.tail).andThen fun value => ?_
    refine .pure ⟨rfl, ?_⟩
    simp only [Expr.encode, List.length_cons, List.length_append]
    omega
  | @group inner hinner =>
    refine .decode (Decoder.byte_of_holds hbytes) ?_
    refine (heval ctx _ inner hbytes.tail hinner).mono fun a b q h => ⟨h.1, ?_⟩
    rw [h.2, Expr.encode, List.length_cons]
    omega
  | @call callee args hlength hargs =>
    refine .decode (Decoder.byte_of_holds hbytes) ?_
    refine (simulates_call hexec heval hlength hargs hbytes.tail).andThen fun value => ?_
    refine .pure ⟨rfl, ?_⟩
    simp only [Expr.encode, List.length_cons, List.length_append, Word.length_ofSymbol,
      Word.length_ofCount]
    omega
  | @accessor module inner hmodule hinner =>
    refine .decode (Decoder.byte_of_holds hbytes) ?_
    refine (simulates_accessor heval hmodule hinner hbytes.tail).mono fun a b q h => ⟨h.1, ?_⟩
    rw [h.2]
    simp only [Expr.encode, List.length_cons, List.length_append]
    omega

end Calls

end Bytewalk.Tree
