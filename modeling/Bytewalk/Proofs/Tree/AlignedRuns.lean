import Bytewalk.Proofs.Tree.Alignment

/-!
# Runs under a renaming

Statement by statement an evaluation and the renamed one do the same: `aligned_statement` takes
statements together with what is inside them, and `ends_topLevelWithin` goes from the first
statement of a program to the last.
-/

namespace Bytewalk.Tree

variable {σ α : Type}

/-! ## Lists of statements -/

/-- A statement in a list stands where its number says. -/
theorem mem_located {place : Nat → Address} {body : List Stmt} {item : Address × Stmt}
    (h : item ∈ located place body) : ∃ i, body[i]? = some item.2 ∧ item.1 = place i := by
  induction body generalizing place with
  | nil => cases h
  | cons s rest ih =>
    rcases List.mem_cons.1 h with rfl | h
    · exact ⟨0, rfl, rfl⟩
    · obtain ⟨i, hi, hplace⟩ := ih h
      exact ⟨i + 1, hi, hplace⟩

theorem located_renameAll (r : Symbol → Symbol) (place : Nat → Address) (body : List Stmt) :
    located place (Stmt.renameAll r body) =
      (located place body).map (Prod.map id (Stmt.rename r)) := by
  induction body generalizing place with
  | nil => rfl
  | cons s rest ih => exact congrArg _ (ih _)

namespace Alignment

variable {A : Alignment σ}

/-- The statements of a list inside a statement are at sites. -/
theorem site_of_mem_located {modules : List Symbol} {a : Address} {s : Stmt}
    (h : A.site modules a s) (edge : Nat → Edge) (body : List Stmt)
    (hedge : ∀ i, child? s (edge i) = body[i]?) :
    ∀ item ∈ located (fun i => a.child (edge i)) body,
      A.site (modules ++ s.opens) item.1 item.2 := by
  intro item hitem
  obtain ⟨i, hi, hplace⟩ := mem_located hitem
  rw [hplace]
  exact A.child h ((hedge i).trans hi)

/-- A statement inside one that is no module is at a site in the same modules. -/
theorem site_child {modules : List Symbol} {a : Address} {s c : Stmt} {edge : Edge}
    (h : A.site modules a s) (hopens : s.opens = []) (hedge : child? s edge = some c) :
    A.site modules (a.child edge) c := by
  have hchild := A.child h hedge
  rwa [hopens, List.append_nil] at hchild

/-! ## Statements -/

section Statements

variable {execute execute' : Context → Address → Stmt → Eval σ Flow}
  {evaluate evaluate' : Context → Expr → Eval σ Operand} {ctx : Context} {a : Address}

/-- An entity that is declared at a site is bound under the renamed symbol. -/
theorem aligned_declare {s : Stmt} (hsite : A.site ctx.modules a s) {symbol : Symbol}
    (hsymbol : symbol ∈ s.symbols) {b : Binding σ} (hb : A.Admits b) :
    A.Aligned Eq (declare A.here ctx symbol b)
      (declare A.there (ctx.rename A.rename) (A.rename symbol) (b.rename A.rename)) := by
  have hknown := A.symbols hsite symbol (List.mem_append_right _ hsymbol)
  exact (Aligned.bindIn ctx.scope hknown hb).andThen fun _ => .pure rfl

theorem aligned_declareFunction {symbol : Symbol} {params : List Symbol} {body : Stmt}
    (hsite : A.site ctx.modules a (.function symbol params body)) :
    A.Aligned Eq (declareFunction A.here ctx a symbol params body)
      (declareFunction A.there (ctx.rename A.rename) a (A.rename symbol) (params.map A.rename)
        (body.rename A.rename)) := by
  refine (Aligned.openScope ctx.scope).andThen fun closure => Aligned.andThen ?_ fun _ => ?_
  · refine .forM fun param hparam => .bindIn closure ?_ .variable
    refine A.symbols hsite param (List.mem_append_right _ ?_)
    simp [Stmt.symbols, hparam]
  · exact aligned_declare hsite List.mem_cons_self (.declared hsite .function)

theorem aligned_importHost {source : Symbol} {target : Option Symbol}
    (hsite : A.site ctx.modules a (.importHost source target)) :
    A.Aligned Eq (importHost A.here ctx source (target.getD source))
      (importHost A.there (ctx.rename A.rename) (A.rename source)
        ((target.map A.rename).getD (A.rename source))) := by
  have hsource := A.symbols hsite source (List.mem_append_right _ List.mem_cons_self)
  have htarget : target.getD source ∈ (Stmt.importHost source target).symbols := by
    cases target <;> simp [Stmt.symbols]
  have hrenamed : (target.map A.rename).getD (A.rename source) =
      A.rename (target.getD source) := by
    cases target <;> rfl
  obtain ⟨hget, hself⟩ := A.spelled source hsource
  rw [importHost, importHost, hget, hrenamed, A.hosts]
  cases hname : A.here.names.get? source with
  | none =>
    rw [hself hname]
    exact .fail
  | some name =>
    dsimp only
    cases hfound : A.here.hosts.get? name with
    | none => exact .fail
    | some f =>
      have hdeclares : Declares A.here.hosts ctx.modules a (.importHost source target)
          (.host { parent := ctx.modules, symbol := target.getD source } f) :=
        .importHost (List.mem_of_find?_eq_some hfound)
      exact aligned_declare hsite htarget (.declared hsite hdeclares)

section Inside

variable (hexec : A.Executes execute execute')
include hexec

theorem aligned_executeOptional (ctx : Context) (a : Address) {s : Option Stmt}
    (h : ∀ x ∈ s, A.site ctx.modules a x) :
    A.Aligned Eq (executeOptional execute ctx a s)
      (executeOptional execute' (ctx.rename A.rename) a (Stmt.renameOptional A.rename s)) := by
  cases s with
  | none => exact .pure rfl
  | some s => exact hexec ctx a s (h s rfl)

theorem aligned_sequence (ctx : Context) {items : List (Address × Stmt)}
    (h : ∀ item ∈ items, A.site ctx.modules item.1 item.2) :
    A.Aligned Eq (sequence execute ctx items)
      (sequence execute' (ctx.rename A.rename)
        (items.map (Prod.map id (Stmt.rename A.rename)))) := by
  induction items with
  | nil => exact .pure rfl
  | cons item rest ih =>
    obtain ⟨hitem, hrest⟩ := List.forall_mem_cons.1 h
    refine (hexec ctx item.1 item.2 hitem).andThen fun flow => ?_
    cases flow with
    | normal => exact ih hrest
    | _ => exact .pure rfl

theorem aligned_block {body : List Stmt} (hsite : A.site ctx.modules a (.block body)) :
    A.Aligned Eq
      (do
        let inner := { ctx with scope := ← Eval.openScope ctx.scope }
        sequence execute inner (located (fun i => a.child (.item i)) body))
      (do
        let inner := { ctx.rename A.rename with scope := ← Eval.openScope ctx.scope }
        sequence execute' inner
          (located (fun i => a.child (.item i)) (Stmt.renameAll A.rename body))) := by
  refine (Aligned.openScope ctx.scope).andThen fun scope => ?_
  rw [located_renameAll]
  refine aligned_sequence hexec { ctx with scope } ?_
  have hitems := site_of_mem_located hsite .item body fun _ => rfl
  have hopens : (Stmt.block body).opens = [] := rfl
  rwa [hopens, List.append_nil] at hitems

theorem aligned_moduleMembers (ctx : Context) {items : List (Address × Stmt)}
    (h : ∀ item ∈ items, A.site ctx.modules item.1 item.2) :
    A.Aligned Eq (moduleMembers execute ctx items)
      (moduleMembers execute' (ctx.rename A.rename)
        (items.map (Prod.map id (Stmt.rename A.rename)))) := by
  refine (aligned_sequence hexec ctx h).andThen fun flow => ?_
  cases flow with
  | normal => exact .pure rfl
  | breakLoop | returnValue => exact .fail

theorem aligned_declareModule {symbol : Symbol} {fields methods : List Stmt}
    (hsite : A.site ctx.modules a (.module symbol fields methods)) :
    A.Aligned Eq (declareModule A.here execute ctx a symbol fields methods)
      (declareModule A.there execute' (ctx.rename A.rename) a (A.rename symbol)
        (Stmt.renameAll A.rename fields) (Stmt.renameAll A.rename methods)) := by
  refine (Aligned.openScope ctx.scope).andThen fun scope => Aligned.andThen ?_ fun _ => ?_
  · -- The members are at sites in the modules around and the new one.
    let inner : Context := { ctx with scope, modules := ctx.modules ++ [symbol] }
    have hinner : { ctx.rename A.rename with
        scope, modules := (ctx.rename A.rename).modules ++ [A.rename symbol] } =
          inner.rename A.rename := by
      simp [inner, Context.rename]
    have hfields := site_of_mem_located hsite .field fields fun _ => rfl
    have hmethods := site_of_mem_located hsite .method methods fun _ => rfl
    rw [hinner, moduleBody, moduleBody, located_renameAll, located_renameAll]
    exact (aligned_moduleMembers hexec inner hfields).andThen fun _ =>
      aligned_moduleMembers hexec inner hmethods
  · exact aligned_declare hsite List.mem_cons_self (.declared hsite .module)

variable (heval : A.Evaluates evaluate evaluate')
include heval

theorem aligned_branch {test : Expr} {positive : Stmt} {negative : Option Stmt}
    (hsite : A.site ctx.modules a (.branch test positive negative)) :
    A.Aligned Eq (branch execute evaluate ctx a test positive negative)
      (branch execute' evaluate' (ctx.rename A.rename) a (test.rename A.rename)
        (positive.rename A.rename) (Stmt.renameOptional A.rename negative)) := by
  have htest : ∀ x ∈ test.symbols, A.known x := fun x hx =>
    A.symbols hsite x (List.mem_append_right _ (by simp [Stmt.symbols, hx]))
  refine Aligned.andThen ((aligned_evaluateValue ctx heval htest).andThen fun v => .lift _)
    fun holds => ?_
  cases holds with
  | true => exact hexec ctx _ positive (site_child hsite rfl rfl)
  | false =>
    refine aligned_executeOptional hexec ctx _ ?_
    rintro s rfl
    exact site_child hsite rfl rfl

omit hexec in
theorem aligned_assign {symbol : Symbol} {value : Expr}
    (hsite : A.site ctx.modules a (.assign symbol value)) :
    A.Aligned Eq (assign A.here evaluate ctx symbol value)
      (assign A.there evaluate' (ctx.rename A.rename) (A.rename symbol)
        (value.rename A.rename)) := by
  obtain ⟨hsymbol, hvalue⟩ := List.forall_mem_cons.1 fun x hx =>
    A.symbols hsite x (List.mem_append_right _ hx)
  refine (Aligned.resolve ctx.scope hsymbol).andThen fun cell => ?_
  refine (Aligned.read cell).bind ?_
  rintro b _ ⟨-, rfl⟩
  have hwrite := (aligned_evaluateValue ctx heval hvalue).andThen fun result =>
    (Aligned.write (A := A) cell false result).andThen fun _ => Aligned.pure (a := Flow.normal) rfl
  cases b with
  | «variable» constant old =>
    cases constant with
    | true =>
      simp only [Binding.rename, display hsymbol]
      exact .fail
    | false => exact hwrite
  | _ =>
    simp only [Binding.rename, display hsymbol]
    exact .fail

theorem aligned_loop {initial step : Option Stmt} {test : Expr} {body : Stmt}
    (hsite : A.site ctx.modules a (.loop initial test body step)) (turns : Nat) :
    A.Aligned Eq (loop execute evaluate turns ctx a initial test body step)
      (loop execute' evaluate' turns (ctx.rename A.rename) a
        (Stmt.renameOptional A.rename initial) (test.rename A.rename) (body.rename A.rename)
        (Stmt.renameOptional A.rename step)) := by
  have htest : ∀ x ∈ test.symbols, A.known x := fun x hx =>
    A.symbols hsite x (List.mem_append_right _ (by simp [Stmt.symbols, hx]))
  refine (Aligned.openScope ctx.scope).andThen fun scope => ?_
  have hinitial := aligned_executeOptional hexec { ctx with scope } (a.child .initial)
    (s := initial) (by
      rintro s rfl
      exact site_child hsite rfl rfl)
  have hstep := aligned_executeOptional hexec { ctx with scope } (a.child .step)
    (s := step) (by
      rintro s rfl
      exact site_child hsite rfl rfl)
  refine hinitial.andThen fun flow => ?_
  cases flow with
  | normal =>
    refine .iterate ?_ turns
    refine Aligned.andThen ((aligned_evaluateValue { ctx with scope } heval htest).andThen
      fun v => .lift _) fun holds => ?_
    cases holds with
    | true =>
      refine (hexec { ctx with scope } _ body (site_child hsite rfl rfl)).andThen fun flow => ?_
      cases flow with
      | normal =>
        refine hstep.andThen fun flow => ?_
        cases flow <;> exact .pure rfl
      | breakLoop =>
        refine hstep.andThen fun flow => ?_
        cases flow <;> exact .pure rfl
      | returnValue => exact .pure rfl
    | false => exact .pure rfl
  | breakLoop | returnValue => exact .pure rfl

theorem aligned_statementOf {s : Stmt} (hsite : A.site ctx.modules a s) (turns : Nat) :
    A.Aligned Eq (statementOf A.here execute evaluate turns ctx a s)
      (statementOf A.there execute' evaluate' turns (ctx.rename A.rename) a
        (s.rename A.rename)) := by
  have hknown : ∀ x ∈ s.symbols, A.known x := fun x hx =>
    A.symbols hsite x (List.mem_append_right _ hx)
  cases s with
  | print value =>
    refine (heval ctx value hknown).andThen fun operand => ?_
    refine (Aligned.bindingOf operand).bind ?_
    rintro b _ ⟨hb, rfl⟩
    rw [hb.render]
    exact (Aligned.emit _).andThen fun _ => .pure rfl
  | branch test positive negative => exact aligned_branch hexec heval hsite
  | block body => exact aligned_block hexec hsite
  | declare constant symbol initial =>
    obtain ⟨-, hinitial⟩ := List.forall_mem_cons.1 hknown
    refine (aligned_evaluateOptional ctx heval hinitial).andThen fun v => ?_
    exact aligned_declare hsite List.mem_cons_self .variable
  | assign symbol value => exact aligned_assign heval hsite
  | loop initial test body step => exact aligned_loop hexec heval hsite turns
  | breakLoop => exact .pure rfl
  | function symbol params body => exact aligned_declareFunction hsite
  | call callee args =>
    obtain ⟨hcallee, hargs⟩ := List.forall_mem_cons.1 hknown
    exact (aligned_call ctx heval hexec hcallee hargs).andThen fun _ => .pure rfl
  | returnValue value =>
    exact (aligned_evaluateOptional ctx heval hknown).andThen fun _ => .pure rfl
  | classDecl symbol fields methods =>
    have hplaces : ∀ (place : Nat → Address) (body : List Stmt),
        (located place (Stmt.renameAll A.rename body)).map (·.1) =
          (located place body).map (·.1) := by
      intro place body
      rw [located_renameAll, List.map_map]
      rfl
    simp only [Stmt.rename, statementOf, hplaces]
    exact aligned_declare hsite List.mem_cons_self (.declared hsite .classDecl)
  | module symbol fields methods => exact aligned_declareModule hexec hsite
  | importHost symbol target => exact aligned_importHost hsite

/-- A statement at a site does what the renamed statement does. -/
theorem aligned_statement {s : Stmt} (hsite : A.site ctx.modules a s) (turns : Nat) :
    A.Aligned Eq (statement A.here execute evaluate turns ctx a s)
      (statement A.there execute' evaluate' turns (ctx.rename A.rename) a
        (s.rename A.rename)) :=
  .mapFailure (Aligned.countStatement.andThen fun _ => aligned_statementOf hexec heval hsite turns)

end Inside

end Statements

/-! ## Runs -/

/-- With as many steps statements and expressions do what the renamed ones do. -/
theorem aligned_steps (A : Alignment σ) (n : Nat) :
    A.Executes (execute A.here n) (execute A.there n) ∧
      A.Evaluates (evaluate A.here n) (evaluate A.there n) := by
  induction n with
  | zero => exact ⟨fun _ _ _ _ => .exhaust, fun _ _ _ => .exhaust⟩
  | succ n ih =>
    obtain ⟨hexec, heval⟩ := ih
    exact ⟨fun ctx a s hsite => aligned_statement hexec heval hsite n,
      fun ctx e he => aligned_expression ctx heval hexec he⟩

/-- Statements of a program do what the renamed ones do. -/
theorem aligned_topLevel {execute execute' : Context → Address → Stmt → Eval σ Flow}
    (hexec : A.Executes execute execute') {ctx : Context} {items : List (Address × Stmt)}
    (h : ∀ item ∈ items, A.site ctx.modules item.1 item.2) :
    A.Aligned Eq (topLevel (execute ctx) items)
      (topLevel (execute' (ctx.rename A.rename))
        (items.map (Prod.map id (Stmt.rename A.rename)))) := by
  induction items with
  | nil => exact .pure rfl
  | cons item rest ih =>
    obtain ⟨hitem, hrest⟩ := List.forall_mem_cons.1 h
    refine (hexec ctx item.1 item.2 hitem).andThen fun flow => ?_
    cases flow with
    | normal => exact ih hrest
    | breakLoop | returnValue => exact .mapFailure .fail

/-- A program at whose statements there are sites runs as the renamed program does. -/
theorem ends_topLevelWithin {execute execute' : Context → Address → Stmt → Eval σ Flow}
    (hexec : A.Executes execute execute') {program : List Stmt}
    (h : ∀ i s, program[i]? = some s → A.site [] { index := i } s) (steps : Nat) (host : σ) :
    A.Ends Eq
      (topLevelWithin (execute .root) steps (located (fun i => { index := i }) program)
        (World.initial host))
      (topLevelWithin (execute' .root) steps
        (located (fun i => { index := i }) (Stmt.renameAll A.rename program))
        (World.initial host)) := by
  have hitems : ∀ item ∈ (located (fun i => { index := i }) program).take steps,
      A.site Context.root.modules item.1 item.2 := by
    intro item hitem
    obtain ⟨i, hi, hplace⟩ := mem_located (List.mem_of_mem_take hitem)
    exact hplace ▸ h i item.2 hi
  have hinitial : (World.initial host).rename A.rename = World.initial host := by
    simp [World.rename, World.initial, Store.rename, Store.map, Store.newRoot, Store.empty]
  have hsound : A.Sound (World.initial host) := fun cell b hb => by
    rw [World.read?_initial] at hb
    cases hb
  have hrun : A.Aligned Eq
      (topLevelWithin (execute .root) steps (located (fun i => { index := i }) program))
      (topLevelWithin (execute' (Context.root.rename A.rename)) steps
        (located (fun i => { index := i }) (Stmt.renameAll A.rename program))) := by
    rw [located_renameAll, topLevelWithin, topLevelWithin, ← List.map_take, List.length_map]
    refine (aligned_topLevel hexec hitems).andThen fun _ => ?_
    split
    · exact .exhaust
    · exact .pure rfl
  rw [Aligned] at hrun
  have hends := hrun _ hsound
  rwa [hinitial] at hends

end Alignment

end Bytewalk.Tree
