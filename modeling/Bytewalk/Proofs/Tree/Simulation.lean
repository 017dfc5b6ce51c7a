import Bytewalk.Proofs.Machine.Equations
import Bytewalk.Proofs.Machine.Operators
import Bytewalk.Proofs.Scope.Store
import Bytewalk.Proofs.Tree.Normalization
import Bytewalk.Proofs.Tree.Semantics

/-!
# Machine and trees side by side

The machine and the evaluator of trees go in lockstep. In a `Scene`, an image holds a program; then
every world of the evaluator stands for a machine state, up to the position, and in
`Scene.state` this state is written down. `Simulates` says that from such a state an execution of
the machine does what an evaluation does; the rules of this module put simulations together from
parts.
-/

namespace Bytewalk

/-- Some call of the host function fails with an error that has the offset. -/
def HostFunction.MayFailAt {σ : Type} (f : HostFunction σ) (n : Nat) : Prop :=
  ∃ args host e after, f.action args host = (.error e, after) ∧ e.offset = some n

namespace Tree

variable {σ α β γ δ : Type}

/-! ## Scenes -/

/-- What the machine keeps where the evaluator keeps a binding: offsets instead of subtrees. -/
def Binding.lower (program : List Stmt) : Binding σ → Bytewalk.Binding σ
  | .variable constant value => .variable constant value
  | .function f => .function {
      name := f.name, params := f.params, body := offset program f.address, closure := f.closure }
  | .classInfo c => .classInfo {
      name := c.name, fields := c.fields.map (offset program)
      methods := c.methods.map (offset program), closure := c.closure }
  | .module m => .module m
  | .host name f => .host name f

/-- The offset of an error for which somebody is to blame: a statement of the program, which the
image holds at this offset, or a function of the host, which has given the offset. -/
inductive Blamed (image : Image) (program : List Stmt) (hosts : Registry σ) : Blame → Nat → Prop
  | statement {a : Address} {s : Stmt} (h : Placed image program a s) :
      Blamed image program hosts (.statement a) (offset program a)
  | host {f : HostFunction σ} {n : Nat} (hf : f ∈ hosts.functions) (hn : f.MayFailAt n) :
      Blamed image program hosts (.host n) n

/-- A setup whose image holds a program that can be encoded, and the lines that have been printed
before the program runs. -/
structure Scene (σ : Type) where
  /-- The setup of the machine. -/
  setup : Bytewalk.Setup σ
  /-- The statements of the program. -/
  program : List Stmt
  /-- The lines collected before. -/
  output : Array String
  /-- The lines echoed before. -/
  echoed : Array String
  /-- The image holds the statements from the first offset of the code on. -/
  holds : setup.program.image.Holds codeStart (Stmt.encodeAll program)
  /-- The statements can be encoded. -/
  encodable : ∀ s ∈ program, s.Encodable

namespace Scene

variable (c : Scene σ)

/-- The image. -/
abbrev image : Image := c.setup.program.image

/-- The setup of the evaluator. -/
def trees : Setup σ where
  names := c.setup.program.names
  hosts := c.setup.hosts
  config := c.setup.config

/-- The state of the machine that corresponds to a world in a context. -/
def state (ctx : Context) (p : Nat) (w : World σ) : State σ where
  position := p
  scope := ctx.scope
  modules := ctx.modules
  depth := ctx.depth
  executed := w.executed
  store := w.store.map (Binding.lower c.program)
  output := if c.setup.config.echo then c.output else c.output ++ w.lines
  echoed := if c.setup.config.echo then c.echoed ++ w.lines else c.echoed
  host := w.host

/-- At the address the image holds a statement, of which this is the normalized form. -/
def Finds (a : Address) (body : Stmt) : Prop :=
  ∃ s, Placed c.image c.program a s ∧ body = s.normalize

/-- The image holds the body of a function where the function says, and a function of the host is
one of those that can be imported. -/
def Admits : Binding σ → Prop
  | .function f => c.Finds f.address f.body
  | .host _ f => f ∈ c.setup.hosts.functions
  | _ => True

/-- The store holds only what is admitted. -/
def Sound (w : World σ) : Prop :=
  ∀ cell binding, w.store.read? cell = some binding → c.Admits binding

end Scene

/-- The machine stops for the reason for which the evaluator stops. -/
inductive Stop.Fits (c : Scene σ) : Bytewalk.Stop → Stop → Prop
  | failed {e : Error} {f : Failure} (hcause : e.cause = f.cause)
      (hblamed : Option.Rel (Blamed c.image c.program c.setup.hosts) f.blame e.offset)
      (hframes : e.frames = f.frames) : Fits c (.failed e) (.failed f)
  | exhausted : Fits c .exhausted .exhausted

/-- An error without an offset stops the machine as the failure made of it stops the evaluator. -/
theorem Stop.Fits.ofError {c : Scene σ} {e : Error} (h : e.offset = none) :
    Fits c (.failed e) (.failed (.ofError e)) := by
  refine .failed rfl ?_ rfl
  rw [Failure.ofError, h]
  exact .none

/-! ## Simulation -/

/-- An execution ends as an evaluation does: with related results, or for the same reason, and in
corresponding states. -/
inductive Outcomes (c : Scene σ) (ctx : Context) (R : α → β → Nat → Prop) :
    EStateM.Result Bytewalk.Stop (State σ) α → EStateM.Result Stop (World σ) β → Prop
  | ok {a : α} {b : β} {q : Nat} {w : World σ} (hsound : c.Sound w) (hrel : R a b q) :
      Outcomes c ctx R (.ok a (c.state ctx q w)) (.ok b w)
  | error {stop : Bytewalk.Stop} {stop' : Stop} {q : Nat} {w : World σ}
      (hfits : stop'.Fits c stop) :
      Outcomes c ctx R (.error stop (c.state ctx q w)) (.error stop' w)

/-- From offset `p` on the execution `x` of the machine does what the evaluation `y` does, and `R`
relates their results and the offset at which the execution ends. -/
@[irreducible]
def Simulates (c : Scene σ) (ctx : Context) (p : Nat) (R : α → β → Nat → Prop)
    (x : Exec σ α) (y : Eval σ β) : Prop :=
  ∀ w, c.Sound w → Outcomes c ctx R (x (c.state ctx p w)) (y w)

/-- The results are the same and the execution ends at the offset. -/
def At (q : Nat) : α → α → Nat → Prop :=
  fun a b r => a = b ∧ r = q

/-- The results are the same, and the execution ends at the offset unless they are a signal. -/
def Ends (q : Nat) : Flow → Flow → Nat → Prop :=
  fun a b r => a = b ∧ (a = .normal → r = q)

/-- At the encoding of every expression the execution does what the evaluation does with the
normalized expression. -/
def Scene.Evaluates (c : Scene σ) (evaluate : Exec σ Operand)
    (evaluate' : Context → Expr → Eval σ Operand) : Prop :=
  ∀ (ctx : Context) (p : Nat) (e : Expr), c.image.Holds p e.encode → e.Encodable →
    Simulates c ctx p (At (p + e.encode.length)) evaluate (evaluate' ctx e.normalize)

/-- At the encoding of every statement of the program the execution does what the evaluation does
with the normalized statement. -/
def Scene.Executes (c : Scene σ) (execute : Exec σ Flow)
    (execute' : Context → Address → Stmt → Eval σ Flow) : Prop :=
  ∀ (ctx : Context) (a : Address) (s : Stmt), Placed c.image c.program a s →
    Simulates c ctx (offset c.program a) (Ends (offset c.program a + s.encode.length)) execute
      (execute' ctx a s.normalize)

namespace Simulates

variable {c : Scene σ} {ctx : Context} {p q : Nat} {R : α → β → Nat → Prop}
  {R' : γ → δ → Nat → Prop} {x : Exec σ α} {y : Eval σ β} {k : α → Exec σ γ} {l : β → Eval σ δ}

/-- Returning simulates returning. -/
theorem pure {a : α} {b : β} (h : R a b p) :
    Simulates c ctx p R (Pure.pure a) (Pure.pure b) := by
  rw [Simulates]
  exact fun w hw => .ok hw h

/-- Failing simulates failing with the same cause. -/
theorem fail {cause : Cause} :
    Simulates c ctx p R (Exec.fail cause : Exec σ α) (Eval.fail cause : Eval σ β) := by
  rw [Simulates]
  exact fun w _ => .error (.failed rfl .none rfl)

/-- Stopping for want of steps simulates doing so. -/
theorem exhaust :
    Simulates c ctx p R (Exec.exhaust : Exec σ α) (Eval.exhaust : Eval σ β) := by
  rw [Simulates]
  exact fun w _ => .error .exhausted

/-- Executions one after the other simulate evaluations one after the other. -/
theorem bind (hx : Simulates c ctx p R x y)
    (hk : ∀ a b q, R a b q → Simulates c ctx q R' (k a) (l b)) :
    Simulates c ctx p R' (x >>= k) (y >>= l) := by
  rw [Simulates] at hx ⊢
  intro w hw
  have hstart := hx w hw
  -- Both ends are given names, so that the cases are those of the outcomes.
  generalize hxs : x (c.state ctx p w) = execution at hstart
  generalize hyw : y w = evaluation at hstart
  cases hstart with
  | @ok a b q u hsound hrel =>
    have hrest := hk a b q hrel
    rw [Simulates] at hrest
    rw [bind_of_ok hxs, bind_of_ok hyw]
    exact hrest u hsound
  | error hfits =>
    rw [bind_of_error hxs, bind_of_error hyw]
    exact .error hfits

/-- Where the first part has the same results and ends at a known offset, the rest goes on there. -/
theorem andThen {x : Exec σ α} {y : Eval σ α} {l : α → Eval σ δ}
    (hx : Simulates c ctx p (At q) x y)
    (hk : ∀ a, Simulates c ctx q R' (k a) (l a)) : Simulates c ctx p R' (x >>= k) (y >>= l) := by
  refine hx.bind fun a b r h => ?_
  obtain ⟨rfl, rfl⟩ := h
  exact hk a

/-- Results may be related in a weaker way. -/
theorem mono {S : α → β → Nat → Prop} (h : Simulates c ctx p R x y)
    (hR : ∀ a b q, R a b q → S a b q) : Simulates c ctx p S x y := by
  rw [Simulates] at h ⊢
  intro w hw
  have hstart := h w hw
  generalize x (c.state ctx p w) = execution at hstart ⊢
  generalize y w = evaluation at hstart ⊢
  cases hstart with
  | ok hsound hrel => exact .ok hsound (hR _ _ _ hrel)
  | error hfits => exact .error hfits

/-- Executions and evaluations count by what they do, however they are written. -/
theorem congr {x' : Exec σ α} {y' : Eval σ β} (h : Simulates c ctx p R x y)
    (hx : ∀ w, x' (c.state ctx p w) = x (c.state ctx p w)) (hy : ∀ w, y' w = y w) :
    Simulates c ctx p R x' y' := by
  rw [Simulates] at h ⊢
  intro w hw
  rw [hx, hy]
  exact h w hw

/-! ### Executions that only the machine needs -/

/-- Decoding moves the position and nothing else. -/
theorem decode {decoder : Decoder α} {a : α} (hdecode : decoder p = .ok a q)
    (hk : Simulates c ctx q R' (k a) (l' : Eval σ δ)) :
    Simulates c ctx p R' (Exec.decode decoder >>= k) l' := by
  rw [Simulates] at hk ⊢
  intro w hw
  rw [bind_of_ok (Exec.decode_of_ok (c.state ctx p w) hdecode)]
  exact hk w hw

/-- Looking the position up changes nothing. -/
theorem position {k : Nat → Exec σ γ} {y : Eval σ δ}
    (hk : Simulates c ctx p R' (k p) y) : Simulates c ctx p R' (Exec.position >>= k) y :=
  hk.congr (fun _ => rfl) fun _ => rfl

/-- Setting the position changes nothing else. -/
theorem seek {k : Unit → Exec σ γ} {y : Eval σ δ}
    (hk : Simulates c ctx q R' (k ()) y) : Simulates c ctx p R' (Exec.seek q >>= k) y := by
  rw [Simulates] at hk ⊢
  exact fun w hw => hk w hw

/-! ### Elementary executions -/

/-- A result is the same, or missing for the same reason. -/
theorem lift {result : Except Error α} (h : ∀ e, result = .error e → e.IsOverTypes) :
    Simulates c ctx p (At p) (Exec.lift result) (Eval.lift result) := by
  cases result with
  | ok a => exact .pure ⟨rfl, rfl⟩
  | error e =>
    rw [Simulates]
    exact fun w _ => .error (.ofError (h e rfl).offset_eq)

/-- A scope is opened inside the current one. -/
theorem openScope :
    Simulates c ctx p (At p) (Exec.openScope : Exec σ Scope) (Eval.openScope ctx.scope) := by
  rw [Simulates]
  exact fun w hw => .ok (w := { w with store := (w.store.newChild ctx.scope).2 }) hw ⟨rfl, rfl⟩

/-- A symbol is resolved to the same cell. -/
theorem resolve (s : Symbol) :
    Simulates c ctx p (At p) (Exec.resolve c.setup.program.names s)
      (Eval.resolve c.trees.names ctx.scope s) := by
  rw [Simulates]
  intro w hw
  rw [Eval.resolve]
  cases h : w.store.lookup? ctx.scope s with
  | some cell =>
    rw [Exec.resolve_of_some (c.state ctx p w) h]
    exact .ok hw ⟨rfl, rfl⟩
  | none =>
    rw [Exec.resolve_of_none (c.state ctx p w) h]
    exact .error (.failed rfl .none rfl)

/-- A cell holds what corresponds to what it holds for the evaluator. -/
theorem read (cell : CellId) :
    Simulates c ctx p
      (fun a b r => a = b.lower c.program ∧ r = p ∧ c.Admits b)
      (Exec.read cell) (Eval.read cell) := by
  rw [Simulates]
  intro w hw
  have hread : ((c.state ctx p w).store.read? cell).getD default =
      ((w.store.read? cell).getD default).lower c.program := by
    rw [Scene.state, Store.read?_map]
    cases w.store.read? cell <;> rfl
  rw [Exec.read_eq, hread]
  refine .ok hw ⟨rfl, rfl, ?_⟩
  cases hcell : w.store.read? cell with
  | none => trivial
  | some b => exact hw cell b hcell

/-- A symbol is bound to what corresponds. -/
theorem bindIn (scope : Scope) (s : Symbol) (binding : Binding σ) (hadmits : c.Admits binding) :
    Simulates c ctx p (At p)
      (Exec.bindIn c.setup.program.names scope s (binding.lower c.program))
      (Eval.bindIn c.trees.names scope s binding) := by
  rw [Simulates]
  intro w hw
  rw [Exec.bindIn, Eval.bindIn]
  by_cases hbound : w.store.bindsLocally scope s
  · rw [if_pos hbound, if_pos (show (c.state ctx p w).store.bindsLocally scope s from hbound)]
    exact .error (.failed rfl .none rfl)
  · rw [if_neg hbound, if_neg (show ¬ (c.state ctx p w).store.bindsLocally scope s from hbound)]
    have hsound : c.Sound { w with store := (w.store.bind scope s binding).2 } := by
      intro cell other hother
      -- A cell that is there is an old one, or the new one with the binding.
      rcases Store.read?_bind _ hother with hold | hnew
      · exact hw cell other hold
      · exact hnew ▸ hadmits
    have h : Outcomes c ctx (At p) (.ok () _) (.ok () _) := .ok (q := p) hsound ⟨rfl, rfl⟩
    simpa [Scene.state] using h

/-- A variable is written. -/
theorem write (cell : CellId) (constant : Bool) (value : Value) :
    Simulates c ctx p (At p)
      (modify fun s => { s with store := s.store.write cell (.variable constant value) })
      (Eval.write cell (.variable constant value)) := by
  rw [Simulates]
  intro w hw
  have hsound : c.Sound { w with store := w.store.write cell (.variable constant value) } := by
    intro other binding hbinding
    rcases Store.read?_write _ hbinding with hold | hnew
    · exact hw other binding hold
    · rw [hnew]
      trivial
  -- Lowering a variable and writing it come to the same as writing it and lowering the store.
  have h : Outcomes c ctx (At p) (.ok () _) (.ok () _) := .ok (q := p) hsound ⟨rfl, rfl⟩
  have hwrite := Store.write_map (Binding.lower c.program) w.store cell (.variable constant value)
  rw [Scene.state, ← hwrite] at h
  exact h

/-- The value of an operand is the same. -/
theorem valueOf (operand : Operand) :
    Simulates c ctx p (At p) (Exec.valueOf operand) (Eval.valueOf operand) := by
  cases operand with
  | value v => exact .pure ⟨rfl, rfl⟩
  | cell cell =>
    refine (read cell).bind fun a b q h => ?_
    obtain ⟨rfl, rfl, -⟩ := h
    refine .pure ⟨?_, rfl⟩
    cases b <;> rfl

/-- What an operand stands for corresponds. -/
theorem bindingOf (operand : Operand) :
    Simulates c ctx p (fun a b r => a = b.lower c.program ∧ r = p)
      (Exec.bindingOf operand) (Eval.bindingOf operand) := by
  cases operand with
  | value v => exact .pure ⟨rfl, rfl⟩
  | cell cell => exact (read cell).mono fun a b q h => ⟨h.1, h.2.1⟩

/-! ### Other contexts -/

/-- An execution in a scope simulates an evaluation in the context with this scope. -/
theorem inScope {scope : Scope} (h : Simulates c { ctx with scope } p R x y) :
    Simulates c ctx p R (Exec.inScope scope x) y := by
  rw [Simulates] at h ⊢
  intro w hw
  have hstart := h w hw
  rw [Exec.inScope]
  generalize hxs : x (c.state { ctx with scope } p w) = execution at hstart
  -- The state in the scope is the state of the context with the scope.
  have hxs' : x { c.state ctx p w with scope } = execution := hxs
  rw [hxs']
  generalize y w = evaluation at hstart ⊢
  cases hstart with
  | ok hsound hrel => exact .ok hsound hrel
  | error hfits => exact .error hfits

/-- An execution with one more module around simulates an evaluation in the context with this
module. -/
theorem inModule {name : Symbol}
    (h : Simulates c { ctx with modules := ctx.modules ++ [name] } p R x y) :
    Simulates c ctx p R (Exec.inModule name x) y := by
  rw [Simulates] at h ⊢
  intro w hw
  have hstart := h w hw
  rw [Exec.inModule]
  generalize hxs : x (c.state { ctx with modules := ctx.modules ++ [name] } p w) = execution
    at hstart
  have hxs' : x { c.state ctx p w with modules := (c.state ctx p w).modules ++ [name] } =
      execution := hxs
  rw [hxs']
  generalize y w = evaluation at hstart ⊢
  cases hstart with
  | ok hsound hrel => exact .ok hsound hrel
  | error hfits => exact .error hfits

/-- An execution at another offset simulates an evaluation in the context of a call, and goes back
to where it began. -/
theorem inCall {entry : Nat} {scope : Scope} {modules : List Symbol}
    (h : Simulates c { scope, modules, depth := ctx.depth + 1 } entry R x y) :
    Simulates c ctx p (fun a b r => (∃ q, R a b q) ∧ r = p)
      (Exec.inCall entry scope modules x) y := by
  rw [Simulates] at h ⊢
  intro w hw
  have hstart := h w hw
  rw [Exec.inCall]
  generalize hxs : x (c.state { scope, modules, depth := ctx.depth + 1 } entry w) = execution
    at hstart
  have hxs' : x { c.state ctx p w with
      position := entry, scope, modules, depth := (c.state ctx p w).depth + 1 } = execution := hxs
  rw [hxs']
  generalize y w = evaluation at hstart ⊢
  cases hstart with
  | ok hsound hrel => exact .ok hsound ⟨⟨_, hrel⟩, rfl⟩
  | error hfits => exact .error hfits

/-- Changes of errors and of failures that correspond keep a simulation. -/
theorem mapError {f : Error → Error} {g : Failure → Failure}
    (hfits : ∀ e failure, Stop.Fits c (.failed e) (.failed failure) →
      Stop.Fits c (.failed (f e)) (.failed (g failure)))
    (h : Simulates c ctx p R x y) :
    Simulates c ctx p R (Exec.mapError f x) (Eval.mapFailure g y) := by
  rw [Simulates] at h ⊢
  intro w hw
  have hstart := h w hw
  rw [Exec.mapError, Eval.mapFailure]
  generalize x (c.state ctx p w) = execution at hstart ⊢
  generalize y w = evaluation at hstart ⊢
  cases hstart with
  | ok hsound hrel => exact .ok hsound hrel
  | error hold =>
    cases hold with
    | failed hcause hblamed hframes =>
      exact .error (hfits _ _ (.failed hcause hblamed hframes))
    | exhausted => exact .error .exhausted

/-! ### Repetition -/

/-- Both decide in the same turn how to go on. -/
inductive Turns (R : α → β → Nat → Prop) : Option α → Option β → Nat → Prop
  | again {q : Nat} : Turns R none none q
  | done {a : α} {b : β} {q : Nat} (hrel : R a b q) : Turns R (some a) (some b) q

/-- Repeated turns simulate repeated turns. -/
theorem iterate {turn : Exec σ (Option α)} {turn' : Eval σ (Option β)}
    (h : ∀ p, Simulates c ctx p (Turns R) turn turn') (n : Nat) :
    ∀ p, Simulates c ctx p R (Exec.iterate turn n) (Eval.iterate turn' n) := by
  induction n with
  | zero => exact fun p => exhaust.congr (fun _ => rfl) fun _ => rfl
  | succ n ih =>
    intro p
    rw [Exec.iterate_succ, Eval.iterate]
    refine (h p).bind fun a b q hturns => ?_
    cases hturns with
    | again => exact ih q
    | done hrel => exact .pure hrel

end Simulates

end Tree

end Bytewalk
