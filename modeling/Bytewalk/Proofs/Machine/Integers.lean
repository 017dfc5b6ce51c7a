import Mathlib.Data.Int.ModEq
import Bytewalk.Proofs.Code.Literal
import Bytewalk.Proofs.Machine.Lockstep

/-!
# Integer expressions

Integers have 32 bits and wrap, and so sums, differences, products and changes of sign are those of
the integers modulo `2 ^ 32`. What is computed on the way wraps too, but no residue is lost. An
expression that is built from integers in this way is evaluated to the residue of the integer it
stands for, without a change of anything but the position.

`integers_exact` is the main result. It rests on `Exec.Gives`, which says how an execution ends that
can fail only for want of steps.
-/

namespace Bytewalk

variable {σ α β : Type}

/-- The integer that an expression stands for which is built from integers by parentheses, changes
of sign, sums, differences and products. -/
def Expr.integer? : Expr → Option Int
  | .literal (.int n) => some n.toInt
  | .group inner => inner.integer?
  | .unary .negate operand => return -(← operand.integer?)
  | .binary .add left right => return (← left.integer?) + (← right.integer?)
  | .binary .subtract left right => return (← left.integer?) - (← right.integer?)
  | .binary .multiply left right => return (← left.integer?) * (← right.integer?)
  | _ => none

/-! ## Executions that cannot fail -/

/-- From the state the execution yields the result in the other state, or it stops for want of
steps, which happens only where the steps are not enough. -/
def Exec.Gives (enough : Prop) (x : Exec σ α) (s : State σ) (a : α) (t : State σ) : Prop :=
  x s = .ok a t ∨ ¬ enough ∧ ∃ u, x s = .error .exhausted u

namespace Exec.Gives

variable {enough enough' : Prop} {x : Exec σ α} {k : α → Exec σ β} {s t u : State σ} {a : α} {b : β}

theorem of_ok (h : x s = .ok a t) : Gives enough x s a t :=
  .inl h

theorem exhaust (h : ¬ enough) : Gives enough (Exec.exhaust : Exec σ α) s a t :=
  .inr ⟨h, s, rfl⟩

theorem mono (h : Gives enough x s a t) (himp : enough' → enough) : Gives enough' x s a t :=
  h.imp id fun ⟨hnot, hexhausted⟩ => ⟨fun h' => hnot (himp h'), hexhausted⟩

theorem bind (hx : Gives enough x s a t) (hk : Gives enough (k a) t b u) :
    Gives enough (x >>= k) s b u := by
  rcases hx with hok | ⟨hnot, u', herror⟩
  · rw [Gives, bind_of_ok hok]
    exact hk
  · exact .inr ⟨hnot, u', bind_of_error herror⟩

end Exec.Gives

/-! ## Arithmetic

What an operator makes of integers, it makes of their residues. -/

theorem UnaryOp.negate_apply_ofInt (v : Int) :
    UnaryOp.apply .negate (.int (.ofInt v)) = .ok (.int (.ofInt (-v))) := by
  rw [Int32.ofInt_neg]
  rfl

theorem BinaryOp.add_apply_ofInt (v w : Int) :
    BinaryOp.apply .add (.int (.ofInt v)) (.int (.ofInt w)) = .ok (.int (.ofInt (v + w))) := by
  rw [Int32.ofInt_add]
  rfl

theorem BinaryOp.subtract_apply_ofInt (v w : Int) :
    BinaryOp.apply .subtract (.int (.ofInt v)) (.int (.ofInt w)) = .ok (.int (.ofInt (v - w))) := by
  rw [Int32.ofInt_sub]
  rfl

theorem BinaryOp.multiply_apply_ofInt (v w : Int) :
    BinaryOp.apply .multiply (.int (.ofInt v)) (.int (.ofInt w)) = .ok (.int (.ofInt (v * w))) := by
  rw [Int32.ofInt_mul]
  rfl

/-! ## Evaluation -/

namespace Machine

variable {m : Setup σ} {evaluate : Exec σ Operand} {call : Exec σ Value} {s : State σ}
  {rest : List UInt8}

variable (m evaluate call) in
/-- What is evaluated behind an opcode. -/
def expressionOf : ExpressionOp → Exec σ Operand
  | .unary => return .value (← unary m evaluate)
  | .binary => return .value (← binary m evaluate)
  | .group => evaluate
  | .literal => return .value (← Exec.decode (Decoder.literal m.program.image))
  | .variable =>
    return .cell
      (← Exec.resolve m.program.names (← Exec.decode (Decoder.symbol m.program.image)))
  | .call => return .value (← call)
  | .accessor => accessor evaluate

theorem expression_of_holds {op : ExpressionOp}
    (h : m.program.image.Holds s.position (op.byte :: rest)) :
    expression m evaluate call s =
      expressionOf m evaluate call op { s with position := s.position + 1 } := by
  refine (bind_of_ok (Exec.decode_of_ok s (Decoder.byte_of_holds h))).trans ?_
  rw [ExpressionOp.ofByte?_byte]
  cases op <;> rfl

/-- Where a unary operator stands, it is applied to the operand behind it. -/
theorem unary_of_holds {op : UnaryOp}
    (h : m.program.image.Holds s.position (op.byte :: rest)) :
    unary m evaluate s =
      (do Exec.lift (op.apply (← evaluateValue evaluate)))
        { s with position := s.position + 1 } := by
  refine (bind_of_ok (Exec.decode_of_ok s (Decoder.byte_of_holds h))).trans ?_
  rw [UnaryOp.ofByte?_byte]

/-- Where a binary operator stands that yields more than a member, it is applied to the operands
behind it. -/
theorem binary_of_holds {op : BinaryOp} (hop : op ≠ .member)
    (h : m.program.image.Holds s.position (op.byte :: rest)) :
    binary m evaluate s =
      (do
        let left ← evaluate
        let right ← evaluate
        Exec.lift (op.apply (← Exec.valueOf left) (← Exec.valueOf right)))
        { s with position := s.position + 1 } := by
  refine (bind_of_ok (Exec.decode_of_ok s (Decoder.byte_of_holds h))).trans ?_
  rw [BinaryOp.ofByte?_byte]
  simp only [if_neg hop]

/-! ### Integers -/

variable (m) in
/-- With so many steps, which are enough if they are as many as the expression has bytes, the
expression is evaluated to the residue of the integer, and only the position changes. -/
def EvaluatesTo (n : Nat) (e : Expr) (v : Int) : Prop :=
  ∀ (s : State σ) (q : Nat), m.program.image.Holds s.position e.encode →
    s.position + e.encode.length = q →
    Exec.Gives (e.encode.length ≤ n) (Machine.evaluate m n) s (.value (.int (.ofInt v)))
      { s with position := q }

namespace EvaluatesTo

variable {n : Nat} {e left right : Expr} {v w z : Int}

theorem zero (e : Expr) (v : Int) : EvaluatesTo m 0 e v := by
  intro s q _ _
  refine .exhaust fun h => ?_
  cases e <;> simp [Expr.encode] at h

theorem literal (k : Int32) : EvaluatesTo m (n + 1) (.literal (.int k)) k.toInt := by
  intro s q hbytes hq
  have hread := Decoder.literal_of_holds hbytes.tail
  rw [Expr.encode, List.length_cons] at hq
  rw [evaluate_succ, Exec.Gives, expression_of_holds hbytes, Int32.ofInt_toInt]
  refine .inl ((bind_of_ok (Exec.decode_of_ok _ hread)).trans ?_)
  obtain rfl : s.position + 1 + (Value.int k).encode.length = q := by omega
  rfl

theorem group (h : EvaluatesTo m n e v) : EvaluatesTo m (n + 1) (.group e) v := by
  intro s q hbytes hq
  rw [Expr.encode, List.length_cons] at hq
  rw [evaluate_succ, Exec.Gives, expression_of_holds hbytes, ← Exec.Gives]
  refine (h { s with position := s.position + 1 } q hbytes.tail (by dsimp only; omega)).mono ?_
  rw [Expr.encode, List.length_cons]
  exact Nat.le_of_succ_le_succ

theorem negate (h : EvaluatesTo m n e v) : EvaluatesTo m (n + 1) (.unary .negate e) (-v) := by
  intro s q hbytes hq
  rw [Expr.encode, List.length_cons, List.length_cons] at hq
  have hoperand := h { s with position := s.position + 1 + 1 } q hbytes.tail.tail
    (by dsimp only; omega)
  have hvalue : Exec.Gives (e.encode.length ≤ n) (evaluateValue (Machine.evaluate m n))
      { s with position := s.position + 1 + 1 } (.int (.ofInt v)) { s with position := q } :=
    hoperand.bind (.of_ok rfl)
  have hunary : Exec.Gives (e.encode.length ≤ n) (unary m (Machine.evaluate m n))
      { s with position := s.position + 1 } (.int (.ofInt (-v))) { s with position := q } := by
    rw [Exec.Gives, unary_of_holds hbytes.tail, ← Exec.Gives]
    refine hvalue.bind (.of_ok ?_)
    rw [UnaryOp.negate_apply_ofInt]
    rfl
  rw [evaluate_succ, Exec.Gives, expression_of_holds hbytes, ← Exec.Gives]
  refine Exec.Gives.mono (hunary.bind (.of_ok ?_)) ?_
  · rfl
  rw [Expr.encode, List.length_cons, List.length_cons]
  omega

/-- An operator that is no question for a member is applied to both integers. -/
theorem binary {op : BinaryOp} (hleft : EvaluatesTo m n left v) (hright : EvaluatesTo m n right w)
    (hop : op ≠ .member)
    (happly : op.apply (.int (.ofInt v)) (.int (.ofInt w)) = .ok (.int (.ofInt z))) :
    EvaluatesTo m (n + 1) (.binary op left right) z := by
  intro s q hbytes hq
  have hlength : (Expr.binary op left right).encode.length =
      left.encode.length + right.encode.length + 2 := by
    rw [Expr.encode, List.length_cons, List.length_cons, List.length_append]
  rw [hlength] at hq
  have hl := hleft { s with position := s.position + 1 + 1 } _ hbytes.tail.tail.left rfl
  have hr := hright { s with position := s.position + 1 + 1 + left.encode.length } q
    hbytes.tail.tail.right (by dsimp only; omega)
  have hbinary : Exec.Gives (left.encode.length + right.encode.length ≤ n)
      (Machine.binary m (Machine.evaluate m n))
      { s with position := s.position + 1 } (.int (.ofInt z)) { s with position := q } := by
    rw [Exec.Gives, binary_of_holds hop hbytes.tail, ← Exec.Gives]
    -- Steps that are enough for both operands are enough for each.
    refine (hl.mono (by omega)).bind ((hr.mono (by omega)).bind (.of_ok ?_))
    change Exec.lift (op.apply (.int (.ofInt v)) (.int (.ofInt w))) _ = _
    rw [happly]
    rfl
  rw [evaluate_succ, Exec.Gives, expression_of_holds hbytes, ← Exec.Gives]
  refine Exec.Gives.mono (hbinary.bind (.of_ok ?_)) ?_
  · rfl
  rw [hlength]
  omega

end EvaluatesTo

/-- What is made of two integers, both of which are there. -/
private theorem exists_of_both {a b : Option Int} {f : Int → Int → Int} {v : Int}
    (h : (do return f (← a) (← b)) = some v) : ∃ w z, a = some w ∧ b = some z ∧ f w z = v := by
  obtain ⟨w, hw, hrest⟩ := Option.bind_eq_some_iff.1 h
  obtain ⟨z, hz, hv⟩ := Option.bind_eq_some_iff.1 hrest
  exact ⟨w, z, hw, hz, Option.some.inj hv⟩

/-- Every integer expression is evaluated to the residue of the integer that it stands for. -/
theorem evaluatesTo_of_integer? {e : Expr} {v : Int} (he : e.integer? = some v) (n : Nat) :
    EvaluatesTo m n e v := by
  -- The induction is on the steps, of which there is one more for every level.
  induction n generalizing e v with
  | zero => exact .zero e v
  | succ n ih =>
    revert he
    fun_cases Expr.integer? e with
    | case1 k =>
      intro he
      cases he
      exact .literal k
    | case2 inner => exact fun he => (ih he).group
    | case3 operand =>
      intro he
      obtain ⟨w, hw, hv⟩ := Option.bind_eq_some_iff.1 he
      cases hv
      exact (ih hw).negate
    | case4 left right =>
      intro he
      obtain ⟨w, z, hw, hz, rfl⟩ := exists_of_both he
      exact (ih hw).binary (ih hz) (by decide) (BinaryOp.add_apply_ofInt w z)
    | case5 left right =>
      intro he
      obtain ⟨w, z, hw, hz, rfl⟩ := exists_of_both he
      exact (ih hw).binary (ih hz) (by decide) (BinaryOp.subtract_apply_ofInt w z)
    | case6 left right =>
      intro he
      obtain ⟨w, z, hw, hz, rfl⟩ := exists_of_both he
      exact (ih hw).binary (ih hz) (by decide) (BinaryOp.multiply_apply_ofInt w z)
    | case7 =>
      intro he
      cases he

end Machine

/-- An integer of 32 bits is the residue of an integer that lies in its range. -/
theorem toInt_ofInt_modEq (v : Int) : (Int32.ofInt v).toInt ≡ v [ZMOD 2 ^ 32] := by
  rw [Int32.toInt_ofInt]
  exact Int.bmod_emod

/-- Where the image holds an expression that is built from integers by parentheses, changes of sign,
sums, differences and products, its evaluation yields an integer of 32 bits, which is congruent to
the integer that the expression stands for. The evaluation ends behind the expression, and nothing
but the position has changed. It ends so with as many steps as the expression has bytes. With fewer
steps it may be cut short, but it does not fail, and it yields nothing else. -/
theorem integers_exact (m : Setup σ) {e : Expr} {v : Int} (he : e.integer? = some v)
    {s : State σ} (hbytes : m.program.image.Holds s.position e.encode) :
    let after := { s with position := s.position + e.encode.length }
    ∃ k : Int32, -2 ^ 31 ≤ k.toInt ∧ k.toInt < 2 ^ 31 ∧ k.toInt ≡ v [ZMOD 2 ^ 32] ∧
      (∀ n, e.encode.length ≤ n → Machine.evaluate m n s = .ok (.value (.int k)) after) ∧
      ∀ n, Machine.evaluate m n s = .ok (.value (.int k)) after ∨
        ∃ t, Machine.evaluate m n s = .error .exhausted t := by
  have hgives := fun n => Machine.evaluatesTo_of_integer? (m := m) he n s _ hbytes rfl
  refine ⟨.ofInt v, Int32.le_toInt _, Int32.toInt_lt _, toInt_ofInt_modEq v,
    fun n henough => ?_, fun n => (hgives n).imp id And.right⟩
  rcases hgives n with hok | ⟨hnot, -⟩
  · exact hok
  · exact absurd henough hnot

/-- The least integer with its sign changed, minus a product, neither of which fits into 32 bits. -/
def Expr.wrapping : Expr :=
  .binary .subtract (.unary .negate (.literal (.int (-2147483648))))
    (.group (.binary .multiply (.literal (.int 65537)) (.literal (.int 65536))))

/-- The integer that the expression stands for does not fit into 32 bits either. Its residue in the
range does, and it is the only one. -/
theorem integers_exact_wrapping :
    let m : Setup Unit := {
      program := { image := Expr.wrapping.encode.toArray, codeEnd := 4, names := {} }
      hosts := {}, config := {} }
    let s : State Unit := { State.initial #[] #[] () with position := 0 }
    Expr.wrapping.integer? = some (-2147549184) ∧
      m.program.image.Holds s.position Expr.wrapping.encode ∧
      Machine.evaluate m 64 s = .ok (.value (.int 2147418112)) { s with position := 25 } := by
  intro m s
  have hvalue : Expr.wrapping.integer? = some (-2147549184) := by rfl
  have hbytes : m.program.image.Holds s.position Expr.wrapping.encode := ⟨[], by simp [m, s]⟩
  obtain ⟨k, hlow, hhigh, hresidue, hends, -⟩ := integers_exact m hvalue hbytes
  -- Only one integer of the range has this residue.
  have hk : k = 2147418112 := by
    refine Int32.toInt_inj.1 ?_
    change k.toInt % 2 ^ 32 = -2147549184 % 2 ^ 32 at hresidue
    change k.toInt = 2147418112
    omega
  exact ⟨hvalue, hbytes, hk ▸ hends 64 (by decide)⟩

end Bytewalk
