import Bytewalk.Proofs.Machine.Displacement

/-!
# Members of modules

There are two ways to ask a module for a member. The operator evaluates both operands in the scope
around, and only then finds out whether the left one is a module. The accessor finds this out first,
and evaluates the inner expression in the scope of the module. Where neither a name nor a call
occurs in the inner expression, the scope makes no difference, and only the order of failures can
tell the two ways apart.

The main result is `member_agrees_with_accessor`. It rests on `evaluate_constant`, by which the
inner expression is evaluated in one way in all states.
-/

namespace Bytewalk

variable {σ α β : Type}

/-- Neither a name nor a call occurs in the expression. -/
def Expr.closed : Expr → Bool
  | .literal _ => true
  | .variable _ | .call _ _ => false
  | .unary _ operand => operand.closed
  | .binary _ left right => left.closed && right.closed
  | .group inner => inner.closed
  | .accessor module inner => module.closed && inner.closed

/-- Where no call occurs, there is no list that could be too long. -/
theorem Expr.Encodable.of_closed {e : Expr} (h : e.closed = true) : e.Encodable := by
  fun_induction Expr.closed e with
  | case1 value => exact .literal value
  | case2 | case3 => cases h
  | case4 op operand ih => exact .unary (ih h)
  | case5 op left right ihleft ihright =>
    rw [Bool.and_eq_true] at h
    exact .binary (ihleft h.1) (ihright h.2)
  | case6 inner ih => exact .group (ih h)
  | case7 module inner ihmodule ihinner =>
    rw [Bool.and_eq_true] at h
    exact .accessor (ihmodule h.1) (ihinner h.2)

/-! ## Executions that do not depend on the state -/

/-- From all states at `p` the execution ends in one way: it yields one good result at `q`, or it
stops. It changes nothing but the position. -/
inductive Constant (good : α → Prop) (p q : Nat) (x : Exec σ α) : Prop
  /-- It yields a good result. -/
  | yields (a : α) (hgood : good a) (h : ∀ s : State σ, x (s.movedTo p) = .ok a (s.movedTo q))
  /-- It stops, wherever it has come to. -/
  | stops (stop : Stop) (r : Nat)
      (h : ∀ s : State σ, x (s.movedTo p) = .error stop (s.movedTo r))

namespace Constant

variable {good : α → Prop} {good' : β → Prop} {p q r : Nat} {x : Exec σ α} {k : α → Exec σ β}

theorem pure {a : α} (h : good a) : Constant good p p (Pure.pure a : Exec σ α) :=
  .yields a h fun _ => rfl

theorem fail (cause : Cause) : Constant good p q (Exec.fail cause : Exec σ α) :=
  .stops _ p fun _ => rfl

theorem exhaust : Constant good p q (Exec.exhaust : Exec σ α) :=
  .stops _ p fun _ => rfl

theorem lift (result : Except Error α) :
    Constant (fun _ => True) p p (Exec.lift result : Exec σ α) := by
  cases result with
  | ok a => exact .pure trivial
  | error e => exact .stops _ p fun _ => rfl

theorem bind (hx : Constant good p q x) (hk : ∀ a, good a → Constant good' q r (k a)) :
    Constant good' p r (x >>= k) := by
  cases hx with
  | yields a hgood h =>
    cases hk a hgood with
    | yields b hgood' h' => exact .yields b hgood' fun s => (bind_of_ok (h s)).trans (h' s)
    | stops stop place h' => exact .stops stop place fun s => (bind_of_ok (h s)).trans (h' s)
  | stops stop place h => exact .stops stop place fun s => bind_of_error (h s)

theorem decode {decoder : Decoder α} {a : α} (h : decoder p = .ok a q)
    (hk : Constant good' q r (k a)) : Constant good' p r (Exec.decode decoder >>= k) := by
  have hdecode : Constant (· = a) p q (Exec.decode decoder : Exec σ α) :=
    .yields a rfl fun s => Exec.decode_of_ok (s.movedTo p) h
  refine hdecode.bind fun b hb => ?_
  rwa [hb]

theorem ending (h : Constant good p q x) (hend : r = q) : Constant good p r x := by
  rwa [hend]

/-- What it yields once, it always yields. -/
theorem ok_of_ok (h : Constant good p q x) {s t : State σ} {a : α}
    (hs : x (s.movedTo p) = .ok a t) :
    good a ∧ ∀ u : State σ, x (u.movedTo p) = .ok a (u.movedTo q) := by
  cases h with
  | yields b hgood hyields =>
    obtain rfl : b = a := (EStateM.Result.ok.inj ((hyields s).symm.trans hs)).1
    exact ⟨hgood, hyields⟩
  | stops stop r hstops =>
    rw [hstops s] at hs
    cases hs

/-- Where it stops once, it always stops. -/
theorem error_of_error (h : Constant good p q x) {s t : State σ} {stop : Stop}
    (hs : x (s.movedTo p) = .error stop t) :
    ∃ r, ∀ u : State σ, x (u.movedTo p) = .error stop (u.movedTo r) := by
  cases h with
  | yields b hgood hyields =>
    rw [hyields s] at hs
    cases hs
  | stops stop' r hstops =>
    obtain rfl : stop' = stop := (EStateM.Result.error.inj ((hstops s).symm.trans hs)).1
    exact ⟨r, hstops⟩

/-- The scope makes no difference. -/
theorem inScope_eq (h : Constant good p q x) (scope : Scope) (t : State σ) :
    Exec.inScope scope x (t.movedTo p) = x (t.movedTo p) := by
  cases h with
  | yields a _ hyields =>
    -- What is executed inside begins in another state at the same position.
    have hinside : x { t.movedTo p with scope } = _ := hyields { t with scope }
    rw [Exec.inScope, hinside, hyields t]
    rfl
  | stops stop r hstops =>
    have hinside : x { t.movedTo p with scope } = _ := hstops { t with scope }
    rw [Exec.inScope, hinside, hstops t]
    rfl

end Constant

namespace Machine

variable {m : Setup σ} {n p : Nat}

/-! ## Expressions without names and calls -/

/-- The operand is a value, not a cell. -/
def IsValue (operand : Operand) : Prop :=
  ∃ v, operand = .value v

theorem constant_valueOf {operand : Operand} (h : IsValue operand) :
    Constant (fun _ => True) p p (Exec.valueOf operand : Exec σ Value) := by
  obtain ⟨v, rfl⟩ := h
  exact .pure trivial

/-- A value is no module. -/
theorem constant_moduleOf {operand : Operand} (h : IsValue operand) :
    Constant (fun _ => False) p p (moduleOf operand : Exec σ ModuleInfo) := by
  obtain ⟨v, rfl⟩ := h
  exact .fail _

variable (m) in
/-- The execution evaluates every expression without names and calls in one way, to a value. -/
def EvaluatesConstantly (evaluate : Exec σ Operand) : Prop :=
  ∀ {e : Expr} {p : Nat}, e.closed = true → m.program.image.Holds p e.encode →
    Constant IsValue p (p + e.encode.length) evaluate

section Evaluation

variable {evaluate : Exec σ Operand} {call : Exec σ Value} (heval : EvaluatesConstantly m evaluate)

include heval

theorem constant_unary {op : UnaryOp} {operand : Expr} (hoperand : operand.closed = true)
    (h : m.program.image.Holds p (op.byte :: operand.encode)) :
    Constant (fun _ => True) p (p + 1 + operand.encode.length) (unary m evaluate) := by
  refine .decode (Decoder.byte_of_holds h) ?_
  rw [UnaryOp.ofByte?_byte]
  have hvalue := (heval hoperand h.tail).bind fun _ => constant_valueOf
  exact hvalue.bind fun v _ => .lift (op.apply v)

theorem constant_binary {op : BinaryOp} {left right : Expr} (hleft : left.closed = true)
    (hright : right.closed = true)
    (h : m.program.image.Holds p (op.byte :: (left.encode ++ right.encode))) :
    Constant (fun _ => True) p (p + 1 + left.encode.length + right.encode.length)
      (binary m evaluate) := by
  refine .decode (Decoder.byte_of_holds h) ?_
  rw [BinaryOp.ofByte?_byte]
  refine (heval hleft h.tail.left).bind fun l hl => ?_
  refine (heval hright h.tail.right).bind fun r hr => ?_
  by_cases hmember : op = .member
  · simp only [hmember, ↓reduceIte]
    exact (constant_moduleOf hl).bind fun _ => False.elim
  · simp only [hmember, ↓reduceIte]
    refine (constant_valueOf hl).bind fun a _ => ?_
    exact (constant_valueOf hr).bind fun b _ => .lift (op.apply a b)

theorem constant_expression {e : Expr} (he : e.closed = true)
    (h : m.program.image.Holds p e.encode) :
    Constant IsValue p (p + e.encode.length) (expression m evaluate call) := by
  cases e with
  | literal value =>
    refine .decode (Decoder.byte_of_holds h) ?_
    refine .decode (Decoder.literal_of_holds h.tail) ?_
    refine (Constant.pure ⟨_, rfl⟩).ending ?_
    rw [Expr.encode, List.length_cons]
    omega
  | «variable» | call => cases he
  | unary op operand =>
    rw [Expr.closed] at he
    refine .decode (Decoder.byte_of_holds h) ?_
    refine ((constant_unary heval he h.tail).bind fun v _ => .pure ⟨v, rfl⟩).ending ?_
    rw [Expr.encode, List.length_cons, List.length_cons]
    omega
  | binary op left right =>
    rw [Expr.closed, Bool.and_eq_true] at he
    refine .decode (Decoder.byte_of_holds h) ?_
    refine ((constant_binary heval he.1 he.2 h.tail).bind fun v _ => .pure ⟨v, rfl⟩).ending ?_
    rw [Expr.encode, List.length_cons, List.length_cons, List.length_append]
    omega
  | group inner =>
    rw [Expr.closed] at he
    refine .decode (Decoder.byte_of_holds h) ?_
    refine (heval he h.tail).ending ?_
    rw [Expr.encode, List.length_cons]
    omega
  | accessor module inner =>
    rw [Expr.closed, Bool.and_eq_true] at he
    refine .decode (Decoder.byte_of_holds h) ?_
    -- What is no name cannot be the name of a module.
    refine (heval he.1 h.tail.left).bind fun operand hoperand => ?_
    exact (constant_moduleOf hoperand).bind fun _ => False.elim

end Evaluation

/-- An expression without names and calls is evaluated in one way, whatever the state, and nothing
but the position changes. -/
theorem evaluate_constant (m : Setup σ) (n : Nat) : EvaluatesConstantly m (evaluate m n) := by
  -- The induction is on the steps, of which there is one more for every level.
  induction n with
  | zero => exact fun _ _ => .exhaust
  | succ n ih => exact fun he h => constant_expression ih he h

/-! ## Both ways -/

/-- Whether an operand names a module does not depend on the position. -/
theorem moduleOf_cases (operand : Operand) (t : State σ) :
    (∃ info, ∀ q, moduleOf operand (t.movedTo q) = .ok info (t.movedTo q)) ∨
    ∃ stop, ∀ q, moduleOf operand (t.movedTo q) = .error stop (t.movedTo q) := by
  cases operand with
  | value v => exact .inr ⟨_, fun _ => rfl⟩
  | cell id =>
    have hread (q : Nat) : Exec.read id (t.movedTo q) =
        .ok ((t.store.read? id).getD default) (t.movedTo q) := rfl
    cases hcell : (t.store.read? id).getD default with
    | module info => exact .inl ⟨info, fun q => bind_of_ok (hcell ▸ hread q)⟩
    | _ => exact .inr ⟨_, fun q => bind_of_ok (hcell ▸ hread q)⟩

/-- An operand has a value, whether or not it names a module. -/
theorem exists_valueOf (operand : Operand) (t : State σ) :
    ∃ v, Exec.valueOf operand t = .ok v t := by
  cases operand with
  | value v => exact ⟨v, rfl⟩
  | cell id => exact ⟨_, Exec.valueOf_cell t id⟩

/-- The operator for members on the operands behind it. -/
def member (evaluate : Exec σ Operand) : Exec σ Value := do
  let left ← evaluate
  let right ← evaluate
  let _ ← moduleOf left
  let a ← Exec.valueOf left
  let b ← Exec.valueOf right
  Exec.lift (BinaryOp.apply .member a b)

/-- The operator evaluates both operands before it asks for the module. -/
theorem evaluate_member {module inner : Expr} (s : State σ)
    (h : m.program.image.Holds p (Expr.binary .member module inner).encode) :
    evaluate m (n + 1) (s.movedTo p) =
      (do return Operand.value (← member (evaluate m n))) (s.movedTo (p + 2)) := by
  have hoperator : binary m (evaluate m n) (s.movedTo (p + 1)) =
      member (evaluate m n) (s.movedTo (p + 2)) := by
    have hbyte := Decoder.byte_of_holds h.tail
    refine (bind_of_ok (Exec.decode_of_ok (s.movedTo (p + 1)) hbyte)).trans ?_
    rw [BinaryOp.ofByte?_byte]
    simp only [↓reduceIte]
    rfl
  refine (bind_of_ok (Exec.decode_of_ok (s.movedTo p) (Decoder.byte_of_holds h))).trans ?_
  change (binary m (evaluate m n) >>= fun v => Pure.pure (Operand.value v)) (s.movedTo (p + 1)) = _
  simp only [bind, EStateM.bind, hoperator]

/-- The accessor asks for the module before it evaluates the inner expression. -/
theorem evaluate_accessor {module inner : Expr} (s : State σ)
    (h : m.program.image.Holds p (Expr.accessor module inner).encode) :
    evaluate m (n + 1) (s.movedTo p) = accessor (evaluate m n) (s.movedTo (p + 1)) :=
  bind_of_ok (Exec.decode_of_ok (s.movedTo p) (Decoder.byte_of_holds h))

/-- From the state an operand is evaluated that names a module. -/
def YieldsModule (evaluate : Exec σ Operand) (s : State σ) : Prop :=
  ∃ operand t info, evaluate s = .ok operand t ∧ moduleOf operand t = .ok info t

variable {evaluate : Exec σ Operand} {p' q q' r r' : Nat}

/-- Where the right operand is evaluated, both ways end alike: they yield it, or they fail because
the left one names no module. -/
theorem displaced_of_ok {operand : Operand} {s t : State σ} {v : Value}
    (hleft : evaluate (s.movedTo p) = .ok operand (t.movedTo q))
    (hleft' : evaluate (s.movedTo p') = .ok operand (t.movedTo q'))
    (hright : evaluate (t.movedTo q) = .ok (.value v) (t.movedTo r))
    (hright' : evaluate (t.movedTo q') = .ok (.value v) (t.movedTo r'))
    (hscope : ∀ scope, Exec.inScope scope evaluate (t.movedTo q') = evaluate (t.movedTo q')) :
    Displaced r r' ((do return Operand.value (← member evaluate)) (s.movedTo p))
      (accessor evaluate (s.movedTo p')) := by
  have hmember : member evaluate (s.movedTo p) = _ := (bind_of_ok hleft).trans (bind_of_ok hright)
  have haccessor : accessor evaluate (s.movedTo p') = _ := bind_of_ok hleft'
  -- The operator asks for the module behind the right operand, and the accessor in front of it.
  rcases moduleOf_cases operand t with ⟨info, hmodule⟩ | ⟨stop, hmodule⟩
  · obtain ⟨w, hvalue⟩ := exists_valueOf operand (t.movedTo r)
    rw [bind_of_ok (hmodule r), bind_of_ok hvalue] at hmember
    rw [bind_of_ok (hmodule q'), hscope, hright'] at haccessor
    rw [bind_of_ok hmember, haccessor]
    exact .ok _ t
  · rw [bind_of_error (hmodule r)] at hmember
    rw [bind_of_error (hmodule q')] at haccessor
    rw [bind_of_error hmember, haccessor]
    exact .error stop t r q'

/-- Where the left operand names a module, both ways fail as the right one does. -/
theorem displaced_of_error {operand : Operand} {info : ModuleInfo} {s t u : State σ} {stop : Stop}
    {i i' : Nat} (hleft : evaluate (s.movedTo p) = .ok operand (t.movedTo q))
    (hleft' : evaluate (s.movedTo p') = .ok operand (t.movedTo q'))
    (hmodule : moduleOf operand (t.movedTo q') = .ok info (t.movedTo q'))
    (hright : evaluate (t.movedTo q) = .error stop (u.movedTo i))
    (hright' : evaluate (t.movedTo q') = .error stop (u.movedTo i'))
    (hscope : ∀ scope, Exec.inScope scope evaluate (t.movedTo q') = evaluate (t.movedTo q')) :
    Displaced r r' ((do return Operand.value (← member evaluate)) (s.movedTo p))
      (accessor evaluate (s.movedTo p')) := by
  have hmember : member evaluate (s.movedTo p) = _ :=
    (bind_of_ok hleft).trans (bind_of_error hright)
  have haccessor : accessor evaluate (s.movedTo p') = _ :=
    (bind_of_ok hleft').trans (bind_of_ok hmodule)
  rw [hscope, hright'] at haccessor
  rw [bind_of_error hmember, haccessor]
  exact .error stop u i i'

/-- Both ways end alike where the left operand names a module or fails, or the right one does not
fail. -/
theorem displaced_member_accessor (hmodule : Relocates p p' q q' evaluate)
    (hinner : Relocates q q' r r' evaluate) (hconstant : Constant IsValue q r evaluate)
    (hconstant' : Constant IsValue q' r' evaluate) (s : State σ)
    (hcase : YieldsModule evaluate (s.movedTo p) ∨
      (∃ operand t, evaluate (s.movedTo q) = .ok operand t) ∨
      ∃ stop t, evaluate (s.movedTo p) = .error stop t) :
    Displaced r r' ((do return Operand.value (← member evaluate)) (s.movedTo p))
      (accessor evaluate (s.movedTo p')) := by
  rw [Relocates] at hmodule hinner
  have hends := hmodule s
  generalize hleft : evaluate (s.movedTo p) = left at hends
  generalize hleft' : evaluate (s.movedTo p') = left' at hends
  cases hends with
  | error stop t i i' =>
    have hmember : member evaluate (s.movedTo p) = _ := bind_of_error hleft
    have haccessor : accessor evaluate (s.movedTo p') = _ := bind_of_error hleft'
    rw [bind_of_error hmember, haccessor]
    exact .error stop t i i'
  | ok operand t =>
    have hscope := fun scope => hconstant'.inScope_eq scope t
    have hends := hinner t
    generalize hright : evaluate (t.movedTo q) = right at hends
    generalize hright' : evaluate (t.movedTo q') = right' at hends
    cases hends with
    | ok value u =>
      obtain ⟨⟨v, rfl⟩, hyields⟩ := hconstant.ok_of_ok hright
      obtain ⟨-, hyields'⟩ := hconstant'.ok_of_ok hright'
      exact displaced_of_ok hleft hleft' (hyields t) (hyields' t) hscope
    | error stop u i i' =>
      rcases moduleOf_cases operand t with ⟨info, hinfo⟩ | ⟨other, hother⟩
      · exact displaced_of_error hleft hleft' (hinfo q') hright hright' hscope
      · -- The left operand names no module, and the right one fails, as it does in every state.
        obtain ⟨j, hstops⟩ := hconstant.error_of_error hright
        rcases hcase with ⟨operand', t', info, hyields, hinfo⟩ | ⟨value, t', hvalue⟩ |
          ⟨stop', t', hfails⟩
        · rw [hleft] at hyields
          cases hyields
          rw [hother q] at hinfo
          cases hinfo
        · rw [hstops s] at hvalue
          cases hvalue
        · rw [hleft] at hfails
          cases hfails

end Machine

/-- An image that holds the operator and then the accessor with two expressions. -/
def Setup.bothWays (module inner : Expr) : Setup Unit where
  program := {
    image := ((Expr.binary .member module inner).encode ++
      (Expr.accessor module inner).encode).toArray
    codeEnd := codeStart
    names := {} }
  hosts := {}
  config := {}

/-- A state in which the first symbol is the name of a module. -/
def State.besideModule : State Unit :=
  let s := State.initial #[] #[] ()
  let name : QualifiedName := { parent := [], symbol := ⟨1⟩ }
  { s with store := (s.store.bind s.scope ⟨1⟩ (.module { name, scope := s.scope })).2 }

/-- Where the left expression is no module and the inner one fails, each of the two ways has its own
reason to fail. -/
example :
    let m := Setup.bothWays (.literal .null) (.unary .negate (.literal .null))
    let s := State.besideModule
    Machine.evaluate m 3 (s.movedTo 0) =
        .error (.failed (.of (.invalidOperand "-" .null))) (s.movedTo 8) ∧
      Machine.evaluate m 3 (s.movedTo 8) =
        .error (.failed (.of (.invalidAccessor "null"))) (s.movedTo 11) :=
  ⟨rfl, rfl⟩

end Bytewalk
