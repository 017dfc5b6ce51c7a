import Bytewalk.Proofs.Computation
import Bytewalk.Proofs.Scope.Store
import Bytewalk.Proofs.Tree.Renaming
import Bytewalk.Proofs.Tree.Semantics

/-!
# Evaluation under a renaming

Two setups that call the same things by different symbols. An `Alignment` says how the symbols of
the first one are renamed in the second one, and which statements are executed where and in which
modules: the sites. What is executed at a site executes the statements inside at sites again, and
every entity that is ever bound has been declared at a site. Under these conditions an evaluation
and the renamed one do the same, up to the names of symbols; `Aligned` says so, and the rules of
this module put aligned evaluations together from parts.
-/

namespace Bytewalk

/-- The qualified name of the renamed symbols. -/
def QualifiedName.rename (r : Symbol → Symbol) (name : QualifiedName) : QualifiedName where
  parent := name.parent.map r
  symbol := r name.symbol

theorem QualifiedName.rename_id (name : QualifiedName) : name.rename id = name := by
  rw [rename, List.map_id]
  rfl

/-- The module that a statement puts around those inside it. -/
def Stmt.opens : Stmt → List Symbol
  | .module symbol _ _ => [symbol]
  | _ => []

namespace Tree

variable {σ α β γ δ : Type}

/-! ## Renamed worlds -/

/-- The function with every symbol renamed. -/
def Function.rename (r : Symbol → Symbol) (f : Function) : Function :=
  { f with name := f.name.rename r, params := f.params.map r, body := f.body.rename r }

namespace Binding

/-- The binding with every symbol renamed. -/
def rename (r : Symbol → Symbol) : Binding σ → Binding σ
  | .variable constant value => .variable constant value
  | .function f => .function (f.rename r)
  | .classInfo c => .classInfo { c with name := c.name.rename r }
  | .module m => .module { m with name := m.name.rename r }
  | .host name f => .host (name.rename r) f

@[simp]
theorem value_rename (r : Symbol → Symbol) (b : Binding σ) : (b.rename r).value = b.value := by
  cases b <;> rfl

@[simp]
theorem kind_rename (r : Symbol → Symbol) (b : Binding σ) : (b.rename r).kind = b.kind := by
  cases b <;> rfl

theorem rename_id (b : Binding σ) : b.rename id = b := by
  cases b with
  | «variable» => rfl
  | function f => rw [rename, Function.rename, QualifiedName.rename_id, List.map_id, Stmt.rename_id]
  | classInfo c => rw [rename, QualifiedName.rename_id]
  | module m => rw [rename, QualifiedName.rename_id]
  | host name f => rw [rename, QualifiedName.rename_id]

end Binding

/-- The context in the renamed modules. -/
def Context.rename (r : Symbol → Symbol) (ctx : Context) : Context :=
  { ctx with modules := ctx.modules.map r }

theorem Context.rename_id (ctx : Context) : ctx.rename id = ctx := by
  rw [rename, List.map_id]

/-- The world with every symbol renamed. -/
def World.rename (r : Symbol → Symbol) (w : World σ) : World σ :=
  { w with store := (w.store.map (Binding.rename r)).rename r }

theorem World.rename_id (w : World σ) : w.rename id = w := by
  rw [rename, Store.rename_id, funext Binding.rename_id]
  exact congrArg (fun store => { w with store }) w.store.map_id

/-! ## Alignments -/

/-- Executed at an address in some modules, the statement binds the entity. -/
inductive Declares (hosts : Registry σ) (modules : List Symbol) (a : Address) :
    Stmt → Binding σ → Prop
  | function {symbol : Symbol} {params : List Symbol} {body : Stmt} {closure : Scope} :
      Declares hosts modules a (.function symbol params body) (.function {
        name := { parent := modules, symbol }, params, body, address := a.child .body, closure })
  | classDecl {symbol : Symbol} {fields methods : List Stmt} {places places' : List Address}
      {closure : Scope} :
      Declares hosts modules a (.classDecl symbol fields methods) (.classInfo {
        name := { parent := modules, symbol }, fields := places, methods := places', closure })
  | module {symbol : Symbol} {fields methods : List Stmt} {scope : Scope} :
      Declares hosts modules a (.module symbol fields methods) (.module {
        name := { parent := modules, symbol }, scope })
  | importHost {symbol : Symbol} {target : Option Symbol} {f : HostFunction σ}
      (hf : f ∈ hosts.functions) :
      Declares hosts modules a (.importHost symbol target) (.host {
        parent := modules, symbol := target.getD symbol } f)

/-- Two setups that differ in what their symbols are called, and the sites at which statements are
executed. -/
structure Alignment (σ : Type) where
  /-- What a symbol of the first setup is in the second one. -/
  rename : Symbol → Symbol
  /-- Different symbols stay different. -/
  injective : Function.Injective rename
  /-- The first setup. -/
  here : Setup σ
  /-- The second setup. -/
  there : Setup σ
  /-- Both have the same host functions. -/
  hosts : there.hosts = here.hosts
  /-- Both have the same limits. -/
  config : there.config = here.config
  /-- The symbols that occur. -/
  known : Symbol → Prop
  /-- A symbol that occurs has the same name in both setups, and if it has none it is the same
  symbol. -/
  spelled : ∀ x, known x → there.names.get? (rename x) = here.names.get? x ∧
    (here.names.get? x = none → rename x = x)
  /-- In the modules the statement is executed at the address. -/
  site : List Symbol → Address → Stmt → Prop
  /-- All symbols at a site occur. -/
  symbols : ∀ {modules a s}, site modules a s → ∀ x ∈ modules ++ s.symbols, known x
  /-- A statement inside one at a site is at a site. -/
  child : ∀ {modules a s edge c}, site modules a s → child? s edge = some c →
    site (modules ++ s.opens) (a.child edge) c

namespace Alignment

variable (A : Alignment σ)

/-- The binding is a variable, or has been declared at a site. -/
def Admits (b : Binding σ) : Prop :=
  (∃ constant value, b = .variable constant value) ∨
    ∃ modules a s, A.site modules a s ∧ Declares A.here.hosts modules a s b

/-- The store holds only what is admitted. -/
def Sound (w : World σ) : Prop :=
  ∀ cell b, w.store.read? cell = some b → A.Admits b

/-- Both evaluations end with related results or for the same reason, the second one in the renamed
world. -/
inductive Ends (R : α → β → Prop) :
    EStateM.Result Stop (World σ) α → EStateM.Result Stop (World σ) β → Prop
  | ok {a : α} {b : β} {w : World σ} (hw : A.Sound w) (hrel : R a b) :
      Ends R (.ok a w) (.ok b (w.rename A.rename))
  | error {stop : Stop} {w : World σ} (hw : A.Sound w) :
      Ends R (.error stop w) (.error stop (w.rename A.rename))

/-- The world in which an evaluation has ended is sound. -/
theorem Ends.sound_of_ok {A : Alignment σ} {R : α → β → Prop}
    {x : EStateM.Result Stop (World σ) α} {y : EStateM.Result Stop (World σ) β}
    (h : A.Ends R x y) {a : α} {w : World σ} (hx : x = .ok a w) : A.Sound w := by
  cases h with
  | ok hw hrel =>
    cases hx
    exact hw
  | error hw => cases hx

theorem Ends.sound_of_error {A : Alignment σ} {R : α → β → Prop}
    {x : EStateM.Result Stop (World σ) α} {y : EStateM.Result Stop (World σ) β}
    (h : A.Ends R x y) {stop : Stop} {w : World σ} (hx : x = .error stop w) : A.Sound w := by
  cases h with
  | ok hw hrel => cases hx
  | error hw =>
    cases hx
    exact hw

/-- From a sound world the first evaluation does what the second one does from the renamed world,
and `R` relates their results. -/
@[irreducible]
def Aligned (R : α → β → Prop) (x : Eval σ α) (y : Eval σ β) : Prop :=
  ∀ w, A.Sound w → A.Ends R (x w) (y (w.rename A.rename))

/-- The renamed expression is evaluated as the expression. -/
def Evaluates (evaluate evaluate' : Context → Expr → Eval σ Operand) : Prop :=
  ∀ (ctx : Context) (e : Expr), (∀ x ∈ e.symbols, A.known x) →
    A.Aligned Eq (evaluate ctx e) (evaluate' (ctx.rename A.rename) (e.rename A.rename))

/-- At a site the renamed statement is executed as the statement. -/
def Executes (execute execute' : Context → Address → Stmt → Eval σ Flow) : Prop :=
  ∀ (ctx : Context) (a : Address) (s : Stmt), A.site ctx.modules a s →
    A.Aligned Eq (execute ctx a s) (execute' (ctx.rename A.rename) a (s.rename A.rename))

variable {A}

/-- A symbol that occurs is displayed alike. -/
theorem display {x : Symbol} (h : A.known x) :
    A.there.names.display (A.rename x) = A.here.names.display x := by
  obtain ⟨hget, hself⟩ := A.spelled x h
  rw [NameTable.display, hget, NameTable.display]
  cases hname : A.here.names.get? x with
  | some name => rw [Option.getD_some, Option.getD_some]
  | none => rw [hself hname]

theorem render {name : QualifiedName} (h : ∀ x ∈ name.path, A.known x) :
    (name.rename A.rename).render A.there.names = name.render A.here.names := by
  have hpath : (name.rename A.rename).path = name.path.map A.rename := by
    rw [QualifiedName.path, QualifiedName.path, List.map_append]
    rfl
  rw [QualifiedName.render, hpath, List.map_map, QualifiedName.render]
  exact congrArg _ (List.map_congr_left fun x hx => display (h x hx))

namespace Admits

theorem «variable» {constant : Bool} {value : Value} : A.Admits (.variable constant value) :=
  .inl ⟨constant, value, rfl⟩

theorem declared {modules : List Symbol} {a : Address} {s : Stmt} {b : Binding σ}
    (hsite : A.site modules a s) (h : Declares A.here.hosts modules a s b) : A.Admits b :=
  .inr ⟨modules, a, s, hsite, h⟩

/-- A name that is qualified at a site consists of symbols that occur. -/
theorem path {modules : List Symbol} {a : Address} {s : Stmt} (hsite : A.site modules a s)
    {symbol : Symbol} (hsymbol : symbol ∈ s.symbols) :
    ∀ x ∈ QualifiedName.path { parent := modules, symbol }, A.known x := by
  refine fun x hx => A.symbols hsite x ?_
  rcases List.mem_append.1 hx with hx | hx
  · exact List.mem_append_left _ hx
  · exact List.mem_append_right _ (List.mem_singleton.1 hx ▸ hsymbol)

/-- The body of a function is at a site in the modules around the function. -/
theorem body {f : Function} (h : A.Admits (.function f)) :
    A.site f.name.parent f.address f.body := by
  rcases h with ⟨_, _, ⟨⟩⟩ | ⟨modules, a, s, hsite, hdeclares⟩
  cases hdeclares with
  | @function symbol params body closure =>
    have hbody : A.site (modules ++ []) (a.child .body) body := A.child hsite rfl
    rwa [List.append_nil] at hbody

/-- The name and the parameters of a function are symbols that occur. -/
theorem function {f : Function} (h : A.Admits (.function f)) :
    (∀ x ∈ f.name.path, A.known x) ∧ ∀ x ∈ f.params, A.known x := by
  rcases h with ⟨_, _, ⟨⟩⟩ | ⟨modules, a, s, hsite, hdeclares⟩
  cases hdeclares with
  | function =>
    refine ⟨path hsite List.mem_cons_self, fun x hx => A.symbols hsite x ?_⟩
    simp [Stmt.symbols, hx]

/-- What is admitted is printed alike. -/
theorem render {b : Binding σ} (h : A.Admits b) :
    (b.rename A.rename).render A.there.names = b.render A.here.names := by
  rcases h with ⟨constant, value, rfl⟩ | ⟨modules, a, s, hsite, hdeclares⟩
  · rfl
  · have hrender : ∀ symbol ∈ s.symbols,
        (QualifiedName.rename A.rename { parent := modules, symbol }).render A.there.names =
          QualifiedName.render { parent := modules, symbol } A.here.names :=
      fun symbol hsymbol => Alignment.render (path hsite hsymbol)
    cases hdeclares with
    | function | classDecl | module =>
      simp only [Binding.rename, Function.rename, Binding.render]
      rw [hrender _ List.mem_cons_self]
    | @importHost symbol target f _ =>
      simp only [Binding.rename, Binding.render]
      rw [hrender]
      cases target <;> simp [Stmt.symbols]

end Admits

/-! ## Rules -/

namespace Aligned

variable {R : α → β → Prop} {S : γ → δ → Prop} {x : Eval σ α} {y : Eval σ β}
  {k : α → Eval σ γ} {l : β → Eval σ δ}

theorem pure {a : α} {b : β} (h : R a b) : A.Aligned R (Pure.pure a) (Pure.pure b) := by
  rw [Aligned]
  exact fun w hw => .ok hw h

theorem fail {cause : Cause} :
    A.Aligned R (Eval.fail cause : Eval σ α) (Eval.fail cause : Eval σ β) := by
  rw [Aligned]
  exact fun w hw => .error hw

theorem exhaust : A.Aligned R (Eval.exhaust : Eval σ α) (Eval.exhaust : Eval σ β) := by
  rw [Aligned]
  exact fun w hw => .error hw

theorem bind (hx : A.Aligned R x y) (hk : ∀ a b, R a b → A.Aligned S (k a) (l b)) :
    A.Aligned S (x >>= k) (y >>= l) := by
  rw [Aligned] at hx ⊢
  intro w hw
  have hstart := hx w hw
  generalize hxw : x w = result at hstart
  generalize hyw : y (w.rename A.rename) = result' at hstart
  cases hstart with
  | @ok a b u hu hrel =>
    have hrest := hk a b hrel
    rw [Aligned] at hrest
    rw [bind_of_ok hxw, bind_of_ok hyw]
    exact hrest u hu
  | error hu =>
    rw [bind_of_error hxw, bind_of_error hyw]
    exact .error hu

/-- Where the first part has the same results. -/
theorem andThen {x y : Eval σ α} {l : α → Eval σ δ} (hx : A.Aligned Eq x y)
    (hk : ∀ a, A.Aligned S (k a) (l a)) : A.Aligned S (x >>= k) (y >>= l) := by
  refine hx.bind ?_
  rintro a _ rfl
  exact hk a

theorem mapFailure {f : Failure → Failure} (h : A.Aligned R x y) :
    A.Aligned R (Eval.mapFailure f x) (Eval.mapFailure f y) := by
  rw [Aligned] at h ⊢
  intro w hw
  have hends := h w hw
  rw [Eval.mapFailure, Eval.mapFailure]
  generalize x w = result at hends ⊢
  generalize y (w.rename A.rename) = result' at hends ⊢
  cases hends with
  | ok hu hrel => exact .ok hu hrel
  | @error stop u hu => cases stop <;> exact .error hu

theorem iterate {turn turn' : Eval σ (Option α)} (h : A.Aligned Eq turn turn') (n : Nat) :
    A.Aligned Eq (Eval.iterate turn n) (Eval.iterate turn' n) := by
  induction n with
  | zero => exact .exhaust
  | succ n ih =>
    refine h.andThen fun next => ?_
    cases next with
    | none => exact ih
    | some a => exact .pure rfl

/-- The same is done for every item and for the renamed ones. -/
theorem forM {ι κ : Type} {f : ι → Eval σ PUnit} {f' : κ → Eval σ PUnit} {g : ι → κ}
    {items : List ι} (h : ∀ i ∈ items, A.Aligned Eq (f i) (f' (g i))) :
    A.Aligned Eq (items.forM f) ((items.map g).forM f') := by
  induction items with
  | nil => exact .pure rfl
  | cons i rest ih =>
    obtain ⟨hi, hrest⟩ := List.forall_mem_cons.1 h
    exact hi.andThen fun _ => ih hrest

theorem lift (result : Except Error α) : A.Aligned Eq (Eval.lift result) (Eval.lift result) := by
  cases result with
  | ok a => exact .pure rfl
  | error e =>
    rw [Aligned]
    exact fun w hw => .error hw

theorem openScope (parent : Scope) :
    A.Aligned Eq (Eval.openScope parent) (Eval.openScope parent) := by
  rw [Aligned]
  intro w hw
  have hopened : A.Ends Eq (.ok (w.store.newChild parent).1 _) (.ok _ _) :=
    .ok (w := { w with store := (w.store.newChild parent).2 }) hw rfl
  rw [Eval.openScope, Eval.openScope, World.rename, Store.newChild_rename]
  exact hopened

/-- A symbol and the renamed one stand for the same cell. -/
theorem resolve (scope : Scope) {s : Symbol} (hs : A.known s) :
    A.Aligned Eq (Eval.resolve A.here.names scope s)
      (Eval.resolve A.there.names scope (A.rename s)) := by
  rw [Aligned]
  intro w hw
  have hsame : (w.rename A.rename).store.lookup? scope (A.rename s) = w.store.lookup? scope s :=
    Store.lookup?_rename _ A.injective scope s
  rw [Eval.resolve, Eval.resolve, hsame, display hs]
  cases w.store.lookup? scope s with
  | some cell => exact .ok hw rfl
  | none => exact .error hw

theorem bindIn (scope : Scope) {s : Symbol} (hs : A.known s) {b : Binding σ} (hb : A.Admits b) :
    A.Aligned Eq (Eval.bindIn A.here.names scope s b)
      (Eval.bindIn A.there.names scope (A.rename s) (b.rename A.rename)) := by
  rw [Aligned]
  intro w hw
  have hsame : (w.rename A.rename).store.bindsLocally scope (A.rename s) =
      w.store.bindsLocally scope s := Store.bindsLocally_rename _ A.injective scope s
  rw [Eval.bindIn, Eval.bindIn, hsame, display hs]
  split
  · exact .error hw
  · have hsound : A.Sound { w with store := (w.store.bind scope s b).2 } := by
      intro cell other hother
      rcases Store.read?_bind _ hother with hold | rfl
      · exact hw cell other hold
      · exact hb
    have hbound : A.Ends Eq (.ok () _) (.ok () _) := .ok hsound rfl
    simpa [World.rename] using hbound

theorem read (cell : CellId) :
    A.Aligned (fun b b' => A.Admits b ∧ b' = b.rename A.rename) (Eval.read cell)
      (Eval.read cell) := by
  rw [Aligned]
  intro w hw
  have hread : ((w.rename A.rename).store.read? cell).getD default =
      ((w.store.read? cell).getD default).rename A.rename := by
    simp only [World.rename, Store.read?_rename, Store.read?_map]
    cases w.store.read? cell <;> rfl
  rw [Eval.read, Eval.read, hread]
  refine .ok hw ⟨?_, rfl⟩
  cases hcell : w.store.read? cell with
  | none => exact .variable
  | some b => exact hw cell b hcell

theorem write (cell : CellId) (constant : Bool) (value : Value) :
    A.Aligned Eq (Eval.write cell (.variable constant value))
      (Eval.write cell (.variable constant value)) := by
  rw [Aligned]
  intro w hw
  have hsound : A.Sound { w with store := w.store.write cell (.variable constant value) } := by
    intro other b hb
    rcases Store.read?_write _ hb with hold | rfl
    · exact hw other b hold
    · exact .variable
  have hwrite := Store.write_map (Binding.rename A.rename) w.store cell (.variable constant value)
  have hwritten : A.Ends Eq (.ok () _) (.ok () _) := .ok hsound rfl
  rwa [World.rename, ← hwrite] at hwritten

theorem valueOf (operand : Operand) :
    A.Aligned Eq (Eval.valueOf operand) (Eval.valueOf operand) := by
  cases operand with
  | value v => exact .pure rfl
  | cell cell =>
    refine (read cell).bind ?_
    rintro b _ ⟨-, rfl⟩
    exact .pure (Binding.value_rename A.rename b).symm

theorem bindingOf (operand : Operand) :
    A.Aligned (fun b b' => A.Admits b ∧ b' = b.rename A.rename) (Eval.bindingOf operand)
      (Eval.bindingOf operand) := by
  cases operand with
  | value v => exact .pure ⟨.variable, rfl⟩
  | cell cell => exact read cell

theorem emit (line : String) : A.Aligned Eq (Eval.emit line) (Eval.emit line) := by
  rw [Aligned]
  exact fun w hw => .ok (w := { w with lines := w.lines.push line }) hw rfl

theorem countStatement : A.Aligned Eq (countStatement A.here) (countStatement A.there) := by
  rw [Aligned]
  intro w hw
  have hcounted : A.Sound { w with executed := w.executed + 1 } := hw
  rw [Tree.countStatement, Tree.countStatement, A.config]
  cases A.here.config.fuel with
  | none => exact .ok hcounted rfl
  | some limit =>
    dsimp only
    by_cases hlimit : limit < w.executed + 1
    · rw [if_pos hlimit, if_pos (show limit < (w.rename A.rename).executed + 1 from hlimit)]
      exact .error hcounted
    · rw [if_neg hlimit, if_neg (show ¬ limit < (w.rename A.rename).executed + 1 from hlimit)]
      exact .ok hcounted rfl

theorem callHost (f : HostFunction σ) (args : List Value) :
    A.Aligned Eq (callHost f args) (callHost f args) := by
  rw [Aligned]
  intro w hw
  rw [Tree.callHost, Tree.callHost, show (w.rename A.rename).host = w.host from rfl]
  rcases f.call args w.host with ⟨_ | _, host⟩
  · exact .error (w := { w with host }) hw
  · exact .ok (w := { w with host }) hw rfl

end Aligned

/-! ## Expressions -/

section Expressions

variable {execute execute' : Context → Address → Stmt → Eval σ Flow}
  {evaluate evaluate' : Context → Expr → Eval σ Operand} (ctx : Context)

/-- The module that an operand names is the renamed one, with the same scope. -/
theorem aligned_moduleOf (operand : Operand) :
    A.Aligned (fun info info' => info'.scope = info.scope) (moduleOf (σ := σ) operand)
      (moduleOf operand) := by
  cases operand with
  | value v => exact .fail
  | cell cell =>
    refine (Aligned.read cell).bind ?_
    rintro b _ ⟨-, rfl⟩
    cases b with
    | module info => exact .pure rfl
    | _ => exact .fail

theorem aligned_openFrame {f : Function} (hparams : ∀ x ∈ f.params, A.known x)
    (args : List Value) :
    A.Aligned Eq (openFrame A.here f args) (openFrame A.there (f.rename A.rename) args) := by
  refine (Aligned.openScope f.closure).andThen fun frame => ?_
  refine Aligned.andThen ?_ fun _ => .pure rfl
  rw [Function.rename, List.zip_map_left]
  refine .forM fun i hi => ?_
  exact .bindIn frame (hparams i.1 (List.of_mem_zip hi).1) .variable

theorem aligned_invoke (hexec : A.Executes execute execute') {f : Function}
    (hf : A.Admits (.function f)) (args : List Value) :
    A.Aligned Eq (invoke A.here execute ctx f args)
      (invoke A.there execute' (ctx.rename A.rename) (f.rename A.rename) args) := by
  have hrender : ((f.rename A.rename).name).render A.there.names = f.name.render A.here.names :=
    render hf.function.1
  have hlength : (f.rename A.rename).params.length = f.params.length := List.length_map ..
  rw [invoke, invoke, hlength, hrender, A.config]
  -- The checks are the same; behind them the body is executed where it stands.
  split
  · exact .fail
  · split
    · rename_i hdepth
      rw [if_pos (show A.here.config.maxCallDepth ≤ (ctx.rename A.rename).depth from hdepth)]
      exact .fail
    · rename_i hdepth
      rw [if_neg (show ¬ A.here.config.maxCallDepth ≤ (ctx.rename A.rename).depth from hdepth)]
      refine (aligned_openFrame hf.function.2 args).andThen fun frame => ?_
      rw [enter, enter, hrender]
      have hbody := hexec { scope := frame, modules := f.name.parent, depth := ctx.depth + 1 }
        f.address f.body hf.body
      refine .mapFailure (hbody.andThen fun flow => ?_)
      cases flow with
      | normal | returnValue => exact .pure rfl
      | breakLoop => exact .fail

variable (heval : A.Evaluates evaluate evaluate')
include heval

theorem aligned_evaluateValue {e : Expr} (he : ∀ x ∈ e.symbols, A.known x) :
    A.Aligned Eq (evaluateValue evaluate ctx e)
      (evaluateValue evaluate' (ctx.rename A.rename) (e.rename A.rename)) :=
  (heval ctx e he).andThen fun operand => .valueOf operand

theorem aligned_evaluateOptional {e : Option Expr}
    (he : ∀ x ∈ Expr.symbolsOptional e, A.known x) :
    A.Aligned Eq (evaluateOptional evaluate ctx e)
      (evaluateOptional evaluate' (ctx.rename A.rename) (e.map (Expr.rename A.rename))) := by
  cases e with
  | none => exact .pure rfl
  | some e => exact aligned_evaluateValue ctx heval he

theorem aligned_evaluateAll {args : List Expr} (he : ∀ x ∈ Expr.symbolsAll args, A.known x) :
    A.Aligned Eq (evaluateAll evaluate ctx args)
      (evaluateAll evaluate' (ctx.rename A.rename) (Expr.renameAll A.rename args)) := by
  induction args with
  | nil => exact .pure rfl
  | cons e rest ih =>
    obtain ⟨hfirst, hrest⟩ := List.forall_mem_append.1 he
    refine (aligned_evaluateValue ctx heval hfirst).andThen fun v => ?_
    exact (ih hrest).andThen fun vs => .pure rfl

theorem aligned_binary (op : BinaryOp) {left right : Expr} (hleft : ∀ x ∈ left.symbols, A.known x)
    (hright : ∀ x ∈ right.symbols, A.known x) :
    A.Aligned Eq (binary evaluate ctx op left right)
      (binary evaluate' (ctx.rename A.rename) op (left.rename A.rename)
        (right.rename A.rename)) := by
  refine (heval ctx left hleft).andThen fun l => (heval ctx right hright).andThen fun r => ?_
  have happly : A.Aligned Eq (do
      let a ← Eval.valueOf (σ := σ) l
      let b ← Eval.valueOf r
      Eval.lift (op.apply a b)) (do
      let a ← Eval.valueOf l
      let b ← Eval.valueOf r
      Eval.lift (op.apply a b)) :=
    (Aligned.valueOf l).andThen fun a => (Aligned.valueOf r).andThen fun b => .lift _
  by_cases hmember : op = .member
  · simp only [hmember, ↓reduceIte]
    exact (aligned_moduleOf l).bind fun _ _ _ => hmember ▸ happly
  · simp only [hmember, ↓reduceIte]
    exact happly

variable (hexec : A.Executes execute execute')
include hexec

theorem aligned_call {callee : Symbol} {args : List Expr} (hcallee : A.known callee)
    (hargs : ∀ x ∈ Expr.symbolsAll args, A.known x) :
    A.Aligned Eq (call A.here execute evaluate ctx callee args)
      (call A.there execute' evaluate' (ctx.rename A.rename) (A.rename callee)
        (Expr.renameAll A.rename args)) := by
  refine (aligned_evaluateAll ctx heval hargs).andThen fun values => ?_
  refine (Aligned.resolve ctx.scope hcallee).andThen fun cell => ?_
  refine (Aligned.read cell).bind ?_
  rintro b _ ⟨hb, rfl⟩
  cases b with
  | function f => exact aligned_invoke ctx hexec hb values
  | host name f => exact .callHost f values
  | _ =>
    simp only [Binding.rename, display hcallee]
    exact .fail

theorem aligned_expression {e : Expr} (he : ∀ x ∈ e.symbols, A.known x) :
    A.Aligned Eq (expression A.here execute evaluate ctx e)
      (expression A.there execute' evaluate' (ctx.rename A.rename) (e.rename A.rename)) := by
  cases e with
  | literal value => exact .pure rfl
  | «variable» symbol =>
    exact (Aligned.resolve ctx.scope (he symbol List.mem_cons_self)).andThen fun _ => .pure rfl
  | unary op operand =>
    refine Aligned.andThen ?_ fun _ => .pure rfl
    exact (aligned_evaluateValue ctx heval (e := operand) he).andThen fun v => .lift _
  | binary op left right =>
    obtain ⟨hleft, hright⟩ := List.forall_mem_append.1 he
    exact (aligned_binary ctx heval op hleft hright).andThen fun _ => .pure rfl
  | group inner => exact heval ctx inner he
  | call callee args =>
    obtain ⟨hcallee, hargs⟩ := List.forall_mem_cons.1 he
    exact (aligned_call ctx heval hexec hcallee hargs).andThen fun _ => .pure rfl
  | accessor module inner =>
    obtain ⟨hmodule, hinner⟩ := List.forall_mem_append.1 he
    refine (heval ctx module hmodule).andThen fun operand => ?_
    refine (aligned_moduleOf operand).bind fun info info' hscope => ?_
    rw [hscope]
    exact heval { ctx with scope := info.scope } inner hinner

end Expressions

end Alignment

end Tree

end Bytewalk
