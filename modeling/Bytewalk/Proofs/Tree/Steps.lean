import Bytewalk.Proofs.Computation
import Bytewalk.Proofs.Tree.Semantics

/-!
# More steps

A run of the evaluator that is not exhausted does not change when it is given more steps. The
evaluator is monotone in the executions and evaluations that it is given for the parts inside,
and so in the number of steps: `run_extends`.
-/

namespace Bytewalk.Tree

variable {σ α β : Type}

/-- Unless `x` is exhausted, `y` does the same. -/
@[irreducible]
def Extends (x y : Eval σ α) : Prop :=
  ∀ w, (∃ u, x w = .error .exhausted u) ∨ y w = x w

namespace Extends

variable {x y : Eval σ α} {k l : α → Eval σ β}

/-- Every execution does the same as itself. -/
@[refl]
theorem refl (x : Eval σ α) : Extends x x := by
  rw [Extends]
  exact fun _ => .inr rfl

/-- An exhausted execution is extended by every other. -/
theorem exhaust : Extends Eval.exhaust y := by
  rw [Extends]
  exact fun w => .inl ⟨w, rfl⟩

/-- Where both parts are extended, the whole is. -/
theorem bind (hx : Extends x y) (hk : ∀ a, Extends (k a) (l a)) :
    Extends (x >>= k) (y >>= l) := by
  rw [Extends] at hx ⊢
  intro w
  rcases hx w with ⟨u, hexhausted⟩ | hsame
  · -- The whole is exhausted where its first part is.
    exact .inl ⟨u, bind_of_error hexhausted⟩
  · cases hxw : x w with
    | ok a u =>
      have hrest := hk a
      rw [Extends] at hrest
      rw [bind_of_ok hxw, bind_of_ok (hsame.trans hxw)]
      exact hrest u
    | error stop u =>
      rw [bind_of_error hxw, bind_of_error (hsame.trans hxw)]
      exact .inr rfl

/-- A change of failures leaves the exhausted executions. -/
theorem mapFailure {f : Failure → Failure} (h : Extends x y) :
    Extends (Eval.mapFailure f x) (Eval.mapFailure f y) := by
  rw [Extends] at h ⊢
  intro w
  rw [Eval.mapFailure, Eval.mapFailure]
  rcases h w with ⟨u, hexhausted⟩ | hsame
  · exact .inl ⟨u, by rw [hexhausted]⟩
  · exact .inr (by rw [hsame])

/-- More turns extend repeated turns. -/
theorem iterate {turn turn' : Eval σ (Option α)} (h : Extends turn turn') {n m : Nat}
    (hle : n ≤ m) : Extends (Eval.iterate turn n) (Eval.iterate turn' m) := by
  induction n generalizing m with
  | zero => exact exhaust
  | succ n ih =>
    cases m with
    | zero => exact absurd hle (Nat.not_succ_le_zero n)
    | succ m =>
      refine h.bind fun next => ?_
      cases next with
      | none => exact ih (Nat.le_of_succ_le_succ hle)
      | some a => exact refl _

end Extends

/-! ## Parts -/

section Parts

variable (t : Setup σ) {execute execute' : Context → Address → Stmt → Eval σ Flow}
  {evaluate evaluate' : Context → Expr → Eval σ Operand}
  (hexec : ∀ ctx a s, Extends (execute ctx a s) (execute' ctx a s))
  (heval : ∀ ctx e, Extends (evaluate ctx e) (evaluate' ctx e))

section Expressions

include heval

/-- The value of an expression. -/
theorem extends_evaluateValue (ctx : Context) (e : Expr) :
    Extends (evaluateValue evaluate ctx e) (evaluateValue evaluate' ctx e) :=
  (heval ctx e).bind fun _ => .refl _

/-- The value of an optional expression. -/
theorem extends_evaluateOptional (ctx : Context) (e : Option Expr) :
    Extends (evaluateOptional evaluate ctx e) (evaluateOptional evaluate' ctx e) := by
  cases e with
  | none => exact .refl _
  | some e => exact extends_evaluateValue heval ctx e

/-- The values of arguments. -/
theorem extends_evaluateAll (ctx : Context) (args : List Expr) :
    Extends (evaluateAll evaluate ctx args) (evaluateAll evaluate' ctx args) := by
  induction args with
  | nil => exact .refl _
  | cons e rest ih =>
    exact (extends_evaluateValue heval ctx e).bind fun _ => ih.bind fun _ => .refl _

include hexec

omit heval in
/-- A call of a function of the program. -/
theorem extends_invoke (ctx : Context) (f : Function) (args : List Value) :
    Extends (invoke t execute ctx f args) (invoke t execute' ctx f args) := by
  rw [invoke, invoke]
  split
  · exact .refl _
  · split
    · exact .refl _
    · refine (Extends.refl (openFrame t f args)).bind fun frame => .mapFailure ?_
      exact (hexec _ _ _).bind fun _ => .refl _

/-- A call. -/
theorem extends_call (ctx : Context) (callee : Symbol) (args : List Expr) :
    Extends (call t execute evaluate ctx callee args)
      (call t execute' evaluate' ctx callee args) := by
  refine (extends_evaluateAll heval ctx args).bind fun values => ?_
  refine (Extends.refl (Eval.resolve t.names ctx.scope callee)).bind fun cell => ?_
  refine (Extends.refl (Eval.read cell)).bind fun binding => ?_
  cases binding with
  | function f => exact extends_invoke t hexec ctx f values
  | _ => exact .refl _

/-- An expression. -/
theorem extends_expression (ctx : Context) (e : Expr) :
    Extends (expression t execute evaluate ctx e) (expression t execute' evaluate' ctx e) := by
  cases e with
  | literal | «variable» => exact .refl _
  | unary op operand =>
    refine Extends.bind ?_ fun _ => .refl _
    exact (extends_evaluateValue heval ctx operand).bind fun _ => .refl _
  | binary op left right =>
    refine Extends.bind ?_ fun _ => .refl _
    exact (heval ctx left).bind fun _ => (heval ctx right).bind fun _ => .refl _
  | group inner => exact heval ctx inner
  | call callee args =>
    exact (extends_call t hexec heval ctx callee args).bind fun _ => .refl _
  | accessor module inner =>
    refine (heval ctx module).bind fun operand => ?_
    exact (Extends.refl (moduleOf operand)).bind fun _ => heval _ inner

end Expressions

section Statements

include hexec

/-- An optional statement. -/
theorem extends_executeOptional (ctx : Context) (a : Address) (s : Option Stmt) :
    Extends (executeOptional execute ctx a s) (executeOptional execute' ctx a s) := by
  cases s with
  | none => exact .refl _
  | some s => exact hexec ctx a s

/-- Statements one behind the other. -/
theorem extends_sequence (ctx : Context) (items : List (Address × Stmt)) :
    Extends (sequence execute ctx items) (sequence execute' ctx items) := by
  induction items with
  | nil => exact .refl _
  | cons item rest ih =>
    refine (hexec ctx item.1 item.2).bind fun flow => ?_
    cases flow with
    | normal => exact ih
    | _ => exact .refl _

/-- A declaration of a module. -/
theorem extends_declareModule (ctx : Context) (a : Address) (symbol : Symbol)
    (fields methods : List Stmt) :
    Extends (declareModule t execute ctx a symbol fields methods)
      (declareModule t execute' ctx a symbol fields methods) := by
  have hmembers : ∀ (inner : Context) (items : List (Address × Stmt)),
      Extends (moduleMembers execute inner items) (moduleMembers execute' inner items) :=
    fun inner items => (extends_sequence hexec inner items).bind fun _ => .refl _
  refine (Extends.refl (Eval.openScope ctx.scope)).bind fun scope => ?_
  refine Extends.bind ?_ fun _ => .refl _
  exact (hmembers _ _).bind fun _ => hmembers _ _

include heval

/-- A branch. -/
theorem extends_branch (ctx : Context) (a : Address) (test : Expr) (positive : Stmt)
    (negative : Option Stmt) :
    Extends (branch execute evaluate ctx a test positive negative)
      (branch execute' evaluate' ctx a test positive negative) := by
  refine Extends.bind ((extends_evaluateValue heval ctx test).bind fun _ => .refl _) fun holds => ?_
  cases holds with
  | true => exact hexec ctx _ positive
  | false => exact extends_executeOptional hexec ctx _ negative

/-- A loop, also with more turns. -/
theorem extends_loop {turns turns' : Nat} (hle : turns ≤ turns') (ctx : Context) (a : Address)
    (initial : Option Stmt) (test : Expr) (body : Stmt) (step : Option Stmt) :
    Extends (loop execute evaluate turns ctx a initial test body step)
      (loop execute' evaluate' turns' ctx a initial test body step) := by
  refine (Extends.refl (Eval.openScope ctx.scope)).bind fun scope => ?_
  refine (extends_executeOptional hexec _ _ initial).bind fun flow => ?_
  cases flow with
  | normal =>
    refine Extends.iterate ?_ hle
    refine Extends.bind ((extends_evaluateValue heval _ test).bind fun _ => .refl _)
      fun holds => ?_
    cases holds with
    | true =>
      refine (hexec _ _ body).bind fun flow => ?_
      cases flow with
      | returnValue => exact .refl _
      | _ => exact (extends_executeOptional hexec _ _ step).bind fun _ => .refl _
    | false => exact .refl _
  | _ => exact .refl _

/-- A statement, also with more turns for its loops. -/
theorem extends_statement {turns turns' : Nat} (hle : turns ≤ turns') (ctx : Context) (a : Address)
    (s : Stmt) :
    Extends (statement t execute evaluate turns ctx a s)
      (statement t execute' evaluate' turns' ctx a s) := by
  refine Extends.mapFailure ((Extends.refl (countStatement t)).bind fun _ => ?_)
  cases s with
  | print value => exact (heval ctx value).bind fun _ => .refl _
  | branch test positive negative => exact extends_branch hexec heval ctx a test positive negative
  | block body =>
    refine (Extends.refl (Eval.openScope ctx.scope)).bind fun scope => ?_
    exact extends_sequence hexec _ _
  | declare constant symbol initial =>
    exact (extends_evaluateOptional heval ctx initial).bind fun _ => .refl _
  | assign symbol value =>
    refine (Extends.refl (Eval.resolve t.names ctx.scope symbol)).bind fun cell => ?_
    refine (Extends.refl (Eval.read cell)).bind fun binding => ?_
    have hvalue := (extends_evaluateValue heval ctx value).bind
      fun result => Extends.refl (do
        Eval.write (σ := σ) cell (.variable false result)
        return Flow.normal)
    cases binding with
    | «variable» constant old =>
      cases constant with
      | true => exact .refl _
      | false => exact hvalue
    | _ => exact .refl _
  | loop initial test body step =>
    exact extends_loop hexec heval hle ctx a initial test body step
  | call callee args => exact (extends_call t hexec heval ctx callee args).bind fun _ => .refl _
  | returnValue value =>
    exact (extends_evaluateOptional heval ctx value).bind fun _ => .refl _
  | module symbol fields methods => exact extends_declareModule t hexec ctx a symbol fields methods
  -- These have no parts that are executed or evaluated.
  | breakLoop | function | classDecl | importHost => exact .refl _

end Statements

end Parts

/-! ## Runs -/

/-- Executions and evaluations with more steps extend those with fewer. -/
private theorem steps_extend (t : Setup σ) {n m : Nat} (hle : n ≤ m) :
    (∀ ctx a s, Extends (execute t n ctx a s) (execute t m ctx a s)) ∧
      ∀ ctx e, Extends (evaluate t n ctx e) (evaluate t m ctx e) := by
  -- No steps exhaust everything, and one step more gives the parts inside one step more.
  induction n generalizing m with
  | zero => exact ⟨fun _ _ _ => .exhaust, fun _ _ => .exhaust⟩
  | succ n ih =>
    cases m with
    | zero => exact absurd hle (Nat.not_succ_le_zero n)
    | succ m =>
      obtain ⟨hexec, heval⟩ := ih (Nat.le_of_succ_le_succ hle)
      exact ⟨fun ctx a s => extends_statement t hexec heval (Nat.le_of_succ_le_succ hle) ctx a s,
        fun ctx e => extends_expression t hexec heval ctx e⟩

/-- A run that is not exhausted stays the same with more steps. -/
theorem run_extends (t : Setup σ) {n m : Nat} (hle : n ≤ m) (program : List Stmt) (host : σ)
    (h : ∀ u, run t n program host ≠ .error .exhausted u) :
    run t m program host = run t n program host := by
  have hitems : ∀ items : List (Address × Stmt),
      Extends (topLevel (execute t n .root) items) (topLevel (execute t m .root) items) := by
    intro items
    induction items with
    | nil => exact .refl _
    | cons item rest ih =>
      refine ((steps_extend t hle).1 _ item.1 item.2).bind fun flow => ?_
      cases flow with
      | normal => exact ih
      | _ => exact .refl _
  have hrun := hitems (located (fun i => { index := i }) program)
  rw [Extends] at hrun
  -- A run that stops for want of steps is excluded; any other is the same.
  rcases hrun (World.initial host) with ⟨u, hexhausted⟩ | hsame
  · exact absurd hexhausted (h u)
  · exact hsame

end Bytewalk.Tree
