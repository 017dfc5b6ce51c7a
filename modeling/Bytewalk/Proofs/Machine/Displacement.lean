import Bytewalk.Proofs.Code.Literal
import Bytewalk.Proofs.Code.PassEncoding
import Bytewalk.Proofs.Machine.Contexts

/-!
# Displaced expressions

An expression may stand at several places of an image. From states that differ only in the position
it is evaluated alike at all of them: to the same operand or with the same error, and into states
that again differ only in the position. The calls inside do not see from where they are made.

`Displaced` compares how two executions end, and `Relocates` says that an execution ends alike from
two positions. The main result is `evaluate_relocates`.
-/

namespace Bytewalk

variable {σ α β : Type}

/-- The state at another position. -/
def State.movedTo (s : State σ) (p : Nat) : State σ :=
  { s with position := p }

/-- Two executions end alike: with the same result and at the two positions, or with the same error,
and in states that differ only in the position. -/
inductive Displaced (q q' : Nat) :
    EStateM.Result Stop (State σ) α → EStateM.Result Stop (State σ) α → Prop
  /-- Both yield the same result. -/
  | ok (a : α) (t : State σ) : Displaced q q' (.ok a (t.movedTo q)) (.ok a (t.movedTo q'))
  /-- Both stop for the same reason, wherever they have come to. -/
  | error (stop : Stop) (t : State σ) (r r' : Nat) :
      Displaced q q' (.error stop (t.movedTo r)) (.error stop (t.movedTo r'))

/-- From `p` the execution ends at `q` as it ends from `p'` at `q'`. -/
@[irreducible]
def Relocates (p p' q q' : Nat) (x : Exec σ α) : Prop :=
  ∀ s : State σ, Displaced q q' (x (s.movedTo p)) (x (s.movedTo p'))

namespace Relocates

variable {m : Setup σ} {p p' q q' r r' : Nat} {x : Exec σ α} {k : α → Exec σ β}

/-! ## Elementary executions -/

theorem pure (a : α) : Relocates p p' p p' (Pure.pure a : Exec σ α) := by
  rw [Relocates]
  exact fun s => .ok a s

theorem fail (cause : Cause) : Relocates p p' q q' (Exec.fail cause : Exec σ α) := by
  rw [Relocates]
  exact fun s => .error _ s p p'

theorem exhaust : Relocates p p' q q' (Exec.exhaust : Exec σ α) := by
  rw [Relocates]
  exact fun s => .error _ s p p'

theorem lift (result : Except Error α) : Relocates p p' p p' (Exec.lift result : Exec σ α) := by
  rw [Relocates]
  cases result with
  | ok a => exact fun s => .ok a s
  | error e => exact fun s => .error _ s p p'

theorem read (cell : CellId) : Relocates p p' p p' (Exec.read cell : Exec σ (Binding σ)) := by
  rw [Relocates]
  exact fun s => .ok _ s

theorem resolve (names : NameTable) (symbol : Symbol) :
    Relocates p p' p p' (Exec.resolve names symbol : Exec σ CellId) := by
  rw [Relocates]
  intro s
  cases h : s.store.lookup? s.scope symbol with
  | some cell =>
    rw [Exec.resolve_of_some (s.movedTo p) h, Exec.resolve_of_some (s.movedTo p') h]
    exact .ok cell s
  | none =>
    rw [Exec.resolve_of_none (s.movedTo p) h, Exec.resolve_of_none (s.movedTo p') h]
    exact .error _ s p p'

theorem callHost (f : HostFunction σ) (args : List Value) :
    Relocates p p' p p' (Machine.callHost f args) := by
  rw [Relocates]
  intro s
  have hhost (r : Nat) : (s.movedTo r).host = s.host := rfl
  rw [Machine.callHost, Machine.callHost, hhost, hhost]
  obtain ⟨result, host⟩ := f.call args s.host
  cases result with
  | ok value => exact .ok value { s with host }
  | error e => exact .error (.failed e) { s with host } p p'

/-- What is isolated from its place does not depend on the position. -/
theorem of_isolated (h : Isolated x) : Relocates p p' p p' x := by
  rw [Relocates]
  intro s
  have hplace (r : Nat) : x (s.movedTo r) =
      Exec.left (fun outside t => t.placedAs outside) (s.movedTo r) (x s) :=
    h s (s.movedTo r)
  rw [hplace, hplace]
  -- Both ends are put back to the places of their beginnings, which differ only in the position.
  cases x s with
  | ok a t => exact .ok a (t.placedAs s)
  | error stop t => exact .error stop (t.placedAs s) p p'

/-! ## Composed executions -/

theorem bind (hx : Relocates p p' q q' x) (hk : ∀ a, Relocates q q' r r' (k a)) :
    Relocates p p' r r' (x >>= k) := by
  rw [Relocates] at hx ⊢
  intro s
  have hfirst := hx s
  -- Both ends are given names, so that the cases are those of the comparison.
  generalize hhere : x (s.movedTo p) = here at hfirst
  generalize hthere : x (s.movedTo p') = there at hfirst
  cases hfirst with
  | ok a t =>
    have hrest := hk a
    rw [Relocates] at hrest
    rw [bind_of_ok hhere, bind_of_ok hthere]
    exact hrest t
  | error stop t r r' =>
    rw [bind_of_error hhere, bind_of_error hthere]
    exact .error stop t r r'

/-- Where the same is decoded at both positions, the rest goes on behind it. -/
theorem decode {decoder : Decoder α} {a : α} (h : decoder p = .ok a q) (h' : decoder p' = .ok a q')
    (hk : Relocates q q' r r' (k a)) : Relocates p p' r r' (Exec.decode decoder >>= k) := by
  rw [Relocates] at hk ⊢
  intro s
  rw [bind_of_ok (Exec.decode_of_ok (s.movedTo p) h),
    bind_of_ok (Exec.decode_of_ok (s.movedTo p') h')]
  exact hk s

/-- The ends may be written in another way. -/
theorem ending (h : Relocates p p' q q' x) (hends : r = q ∧ r' = q') : Relocates p p' r r' x := by
  rwa [hends.1, hends.2]

theorem inScope (scope : Scope) (h : Relocates p p' q q' x) :
    Relocates p p' q q' (Exec.inScope scope x) := by
  rw [Relocates] at h ⊢
  intro s
  have hinside := h { s with scope }
  have hscope (r : Nat) : Exec.inScope scope x (s.movedTo r) =
      Exec.left (fun outside t => { t with scope := outside.scope }) s
        (x (State.movedTo { s with scope } r)) := by
    rw [Exec.inScope]
    rfl
  rw [hscope, hscope]
  generalize x (State.movedTo { s with scope } p) = here at hinside ⊢
  generalize x (State.movedTo { s with scope } p') = there at hinside ⊢
  cases hinside with
  | ok a t => exact .ok a { t with scope := s.scope }
  | error stop t r r' => exact .error stop { t with scope := s.scope } r r'

end Relocates

namespace Machine

variable {m : Setup σ} {p p' : Nat}

/-! ## Operands -/

theorem relocates_valueOf (operand : Operand) :
    Relocates p p' p p' (Exec.valueOf operand : Exec σ Value) := by
  cases operand with
  | value v => exact .pure v
  | cell id => exact (Relocates.read id).bind fun _ => .pure _

theorem relocates_moduleOf (operand : Operand) :
    Relocates p p' p p' (moduleOf operand : Exec σ ModuleInfo) := by
  cases operand with
  | value v => exact .fail _
  | cell id =>
    refine (Relocates.read id).bind fun binding => ?_
    cases binding with
    | module info => exact .pure info
    | _ => exact .fail _

/-! ## Expressions inside -/

variable (m) in
/-- The execution evaluates every expression alike wherever it stands. -/
def RelocatesAll (evaluate : Exec σ Operand) : Prop :=
  ∀ {e : Expr} {p p' : Nat}, e.Encodable → m.program.image.Holds p e.encode →
    m.program.image.Holds p' e.encode →
      Relocates p p' (p + e.encode.length) (p' + e.encode.length) evaluate

section Evaluation

variable {evaluate : Exec σ Operand} (heval : RelocatesAll m evaluate)

include heval

theorem relocates_evaluateValue {e : Expr} (he : e.Encodable)
    (h : m.program.image.Holds p e.encode) (h' : m.program.image.Holds p' e.encode) :
    Relocates p p' (p + e.encode.length) (p' + e.encode.length) (evaluateValue evaluate) :=
  (heval he h h').bind relocates_valueOf

theorem relocates_collect {args : List Expr} (hargs : ∀ e ∈ args, e.Encodable)
    (h : m.program.image.Holds p (Expr.encodeAll args))
    (h' : m.program.image.Holds p' (Expr.encodeAll args)) :
    Relocates p p' (p + (Expr.encodeAll args).length) (p' + (Expr.encodeAll args).length)
      (Exec.collect (evaluateValue evaluate) args.length) := by
  induction args generalizing p p' with
  | nil => exact .pure []
  | cons e rest ih =>
    have hfirst := relocates_evaluateValue heval (hargs e List.mem_cons_self) h.left h'.left
    have hrest := ih (fun x hx => hargs x (List.mem_cons_of_mem e hx)) h.right h'.right
    rw [Expr.encodeAll, List.length_append, ← Nat.add_assoc, ← Nat.add_assoc]
    exact hfirst.bind fun a => hrest.bind fun others => .pure (a :: others)

theorem relocates_unary {op : UnaryOp} {operand : Expr} (hoperand : operand.Encodable)
    (h : m.program.image.Holds p (op.byte :: operand.encode))
    (h' : m.program.image.Holds p' (op.byte :: operand.encode)) :
    Relocates p p' (p + 1 + operand.encode.length) (p' + 1 + operand.encode.length)
      (unary m evaluate) := by
  refine .decode (Decoder.byte_of_holds h) (Decoder.byte_of_holds h') ?_
  rw [UnaryOp.ofByte?_byte]
  exact (relocates_evaluateValue heval hoperand h.tail h'.tail).bind fun v => .lift (op.apply v)

theorem relocates_binary {op : BinaryOp} {left right : Expr} (hleft : left.Encodable)
    (hright : right.Encodable)
    (h : m.program.image.Holds p (op.byte :: (left.encode ++ right.encode)))
    (h' : m.program.image.Holds p' (op.byte :: (left.encode ++ right.encode))) :
    Relocates p p' (p + 1 + left.encode.length + right.encode.length)
      (p' + 1 + left.encode.length + right.encode.length) (binary m evaluate) := by
  refine .decode (Decoder.byte_of_holds h) (Decoder.byte_of_holds h') ?_
  rw [BinaryOp.ofByte?_byte]
  refine (heval hleft h.tail.left h'.tail.left).bind fun l => ?_
  refine (heval hright h.tail.right h'.tail.right).bind fun r => ?_
  -- Behind both operands nothing is read, so that the positions do not matter.
  have happly {q q' : Nat} : Relocates q q' q q' (do
      let a ← Exec.valueOf l
      let b ← Exec.valueOf r
      Exec.lift (op.apply a b) : Exec σ Value) :=
    (relocates_valueOf l).bind fun a => (relocates_valueOf r).bind fun b => .lift (op.apply a b)
  by_cases hmember : op = .member
  · simp only [hmember, ↓reduceIte]
    exact (relocates_moduleOf l).bind fun _ => hmember ▸ happly
  · simp only [hmember, ↓reduceIte]
    exact happly

theorem relocates_accessor {module inner : Expr} (hmodule : module.Encodable)
    (hinner : inner.Encodable) (h : m.program.image.Holds p (module.encode ++ inner.encode))
    (h' : m.program.image.Holds p' (module.encode ++ inner.encode)) :
    Relocates p p' (p + module.encode.length + inner.encode.length)
      (p' + module.encode.length + inner.encode.length) (accessor evaluate) := by
  refine (heval hmodule h.left h'.left).bind fun operand => ?_
  refine (relocates_moduleOf operand).bind fun info => ?_
  exact (heval hinner h.right h'.right).inScope info.scope

/-- The arguments of a call are part of the expression. The body of the function is not, but
the call is isolated. -/
theorem relocates_call {execute : Exec σ Flow} {callee : Symbol} {args : List Expr}
    (hlength : args.length < 2 ^ 31) (hargs : ∀ e ∈ args, e.Encodable)
    (h : m.program.image.Holds p
      (Word.ofSymbol callee ++ (Word.ofCount args.length ++ Expr.encodeAll args)))
    (h' : m.program.image.Holds p'
      (Word.ofSymbol callee ++ (Word.ofCount args.length ++ Expr.encodeAll args))) :
    Relocates p p' (p + 4 + 4 + (Expr.encodeAll args).length)
      (p' + 4 + 4 + (Expr.encodeAll args).length) (call m execute evaluate) := by
  have hfits : args.length * 1 ≤ (Expr.encodeAll args).length := by
    rw [Nat.mul_one]
    exact Expr.length_le_encodeAll args
  have hcount := h.right
  have hcount' := h'.right
  rw [Word.length_ofSymbol] at hcount hcount'
  refine .decode (Decoder.symbol_of_holds h.left) (Decoder.symbol_of_holds h'.left) ?_
  refine .decode (Decoder.count_of_holds hlength hcount hfits)
    (Decoder.count_of_holds hlength hcount' hfits) ?_
  have hitems := hcount.right
  have hitems' := hcount'.right
  rw [Word.length_ofCount] at hitems hitems'
  refine (relocates_collect heval hargs hitems hitems').bind fun values => ?_
  refine (Relocates.resolve m.program.names callee).bind fun cell => ?_
  refine (Relocates.read cell).bind fun binding => ?_
  cases binding with
  | function f => exact .of_isolated (.invoke m execute f values)
  | host name f => exact .callHost f values
  | _ => exact .fail _

theorem relocates_expression {execute : Exec σ Flow} {e : Expr} (he : e.Encodable)
    (h : m.program.image.Holds p e.encode) (h' : m.program.image.Holds p' e.encode) :
    Relocates p p' (p + e.encode.length) (p' + e.encode.length)
      (expression m evaluate (call m execute evaluate)) := by
  cases he with
  | literal value =>
    refine .decode (Decoder.byte_of_holds h) (Decoder.byte_of_holds h') ?_
    refine .decode (Decoder.literal_of_holds h.tail) (Decoder.literal_of_holds h'.tail) ?_
    refine (Relocates.pure _).ending ?_
    rw [Expr.encode, List.length_cons]
    omega
  | «variable» symbol =>
    refine .decode (Decoder.byte_of_holds h) (Decoder.byte_of_holds h') ?_
    refine .decode (Decoder.symbol_of_holds h.tail) (Decoder.symbol_of_holds h'.tail) ?_
    exact (Relocates.resolve m.program.names symbol).bind fun cell => .pure _
  | @unary op operand hoperand =>
    refine .decode (Decoder.byte_of_holds h) (Decoder.byte_of_holds h') ?_
    refine ((relocates_unary heval hoperand h.tail h'.tail).bind fun v => .pure _).ending ?_
    rw [Expr.encode, List.length_cons, List.length_cons]
    omega
  | @binary op left right hleft hright =>
    refine .decode (Decoder.byte_of_holds h) (Decoder.byte_of_holds h') ?_
    refine ((relocates_binary heval hleft hright h.tail h'.tail).bind fun v => .pure _).ending ?_
    rw [Expr.encode, List.length_cons, List.length_cons, List.length_append]
    omega
  | @group inner hinner =>
    refine .decode (Decoder.byte_of_holds h) (Decoder.byte_of_holds h') ?_
    refine (heval hinner h.tail h'.tail).ending ?_
    rw [Expr.encode, List.length_cons]
    omega
  | @call callee args hlength hargs =>
    rw [Expr.encode, List.append_assoc] at h h'
    refine .decode (Decoder.byte_of_holds h) (Decoder.byte_of_holds h') ?_
    refine ((relocates_call heval hlength hargs h.tail h'.tail).bind fun v => .pure _).ending ?_
    rw [Expr.encode, List.length_cons, List.length_append, List.length_append,
      Word.length_ofSymbol, Word.length_ofCount]
    omega
  | @accessor module inner hmodule hinner =>
    refine .decode (Decoder.byte_of_holds h) (Decoder.byte_of_holds h') ?_
    refine (relocates_accessor heval hmodule hinner h.tail h'.tail).ending ?_
    rw [Expr.encode, List.length_cons, List.length_append]
    omega

end Evaluation

/-- Wherever it stands, an expression is evaluated alike. -/
theorem evaluate_relocates (m : Setup σ) (n : Nat) : RelocatesAll m (evaluate m n) := by
  -- The induction is on the steps, of which there is one more for every level.
  induction n with
  | zero => exact fun _ _ _ => .exhaust
  | succ n ih => exact fun he h h' => relocates_expression ih he h h'

end Machine

end Bytewalk
