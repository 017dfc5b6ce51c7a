import Mathlib
import Bytewalk.Proofs.Tree.Guards
import Bytewalk.Proofs.Tree.Offsets
import Bytewalk.Proofs.Tree.Refinement

/-!
# Lexical names

Which modules are around a statement when it is executed, its place in the tree tells, whatever
calls have led there: a function keeps the modules around its declaration, and its body is executed
in these. So the qualified names of functions, classes, modules and host functions are lexical:
`names_lexical`.

The statements of the program are the sites, each of them in the modules around it in the tree.
-/

namespace Bytewalk

variable {σ : Type}

/-- The kind and the symbol of the entity that a statement declares, if it is not a variable. -/
def Stmt.entity? : Stmt → Option (String × Symbol)
  | .function symbol _ _ => some ("function", symbol)
  | .classDecl symbol _ _ => some ("class", symbol)
  | .module symbol _ _ => some ("module", symbol)
  | .importHost symbol target => some ("host function", target.getD symbol)
  | _ => none

@[simp]
theorem Stmt.entity?_normalize (s : Stmt) : s.normalize.entity? = s.entity? := by
  cases s <;> rfl

@[simp]
theorem Stmt.opens_normalize (s : Stmt) : s.normalize.opens = s.opens := by
  cases s <;> rfl

namespace Tree

/-! ## Modules around a statement -/

/-- The symbols of the modules that a path enters, outermost first. -/
def modulesOn : Stmt → List Edge → List Symbol
  | _, [] => []
  | s, edge :: path =>
    match child? s edge with
    | some c => s.opens ++ modulesOn c path
    | none => []

/-- The symbols of the modules around the statement at an address, outermost first. -/
def modulesAround (program : List Stmt) (a : Address) : List Symbol :=
  (program[a.index]?.map (modulesOn · a.path)).getD []

/-- No module is around the statements of the program itself. -/
@[simp]
theorem modulesAround_index (program : List Stmt) (i : Nat) :
    modulesAround program { index := i } = [] := by
  rw [modulesAround]
  cases program[i]? <;> rfl

theorem modulesOn_append {s c d : Stmt} {path : List Edge} {edge : Edge}
    (h : descend? s path = some c) (hedge : child? c edge = some d) :
    modulesOn s (path ++ [edge]) = modulesOn s path ++ c.opens := by
  -- The path is descended from the outermost statement, so that this one changes.
  induction path generalizing s with
  | nil =>
    cases h
    simp [modulesOn, hedge]
  | cons first path ih =>
    obtain ⟨t, hfirst, hpath⟩ := descend?_cons h
    simp [modulesOn, hfirst, ih hpath]

/-- One edge further inside a module may be entered. -/
theorem modulesAround_child {program : List Stmt} {a : Address} {s c : Stmt} {edge : Edge}
    (h : part? program a = some s) (hedge : child? s edge = some c) :
    modulesAround program (a.child edge) = modulesAround program a ++ s.opens := by
  obtain ⟨root, hroot, hdescend⟩ := Option.bind_eq_some_iff.1 h
  simp only [modulesAround, Address.child, hroot, Option.map_some, Option.getD_some,
    modulesOn_append hdescend hedge]

/-! ## Declared entities -/

/-- The entity has been declared by the statement at an address: it is of the kind and it has the
symbol that the statement tells, and its qualified name leads through the modules around the
statement. The body of a function is that inside of the statement. -/
structure DeclaredAt (program : List Stmt) (a : Address) (s : Stmt)
    (binding : Bytewalk.Binding σ) : Prop where
  /-- Kind and qualified name. -/
  name : ∃ symbol, s.entity? = some (binding.kind, symbol) ∧
    binding.name? = some { parent := modulesAround program a, symbol }
  /-- The body of a function. -/
  body : ∀ f, binding = .function f → f.body = offset program (a.child .body)

/-- What a statement declares in the modules around it is kept as what it declares there. -/
theorem Declares.declaredAt {hosts : Registry σ} {program : List Stmt} {a : Address} {s : Stmt}
    {b : Binding σ} (h : Declares hosts (modulesAround program a) a s.normalize b) :
    DeclaredAt program a s (b.lower program) := by
  have hentity := s.entity?_normalize
  generalize s.normalize = t at h hentity
  cases h with
  | function =>
    refine ⟨⟨_, hentity.symm, rfl⟩, ?_⟩
    rintro _ ⟨⟩
    rfl
  | classDecl | module | importHost => exact ⟨⟨_, hentity.symm, rfl⟩, nofun⟩

/-- The last cell holds what has just been declared. -/
theorem newest_of_declare {t : Setup σ} {ctx : Context} {symbol : Symbol} {b : Binding σ}
    {flow : Flow} {w u : World σ} (h : declare t ctx symbol b w = .ok flow u) :
    u.store.cells.back? = some b := by
  obtain ⟨_, v, hbind, hpure⟩ := eq_ok_of_bind h
  cases hpure
  rw [Eval.bindIn] at hbind
  split at hbind
  · cases hbind
  · cases hbind
    simp [Store.bind]

section Newest

variable {t : Setup σ} {ctx : Context} {a : Address} {flow : Flow} {w u : World σ}

/-- A statement that declares an entity ends with the declaration. -/
theorem newest_of_statementOf {execute : Context → Address → Stmt → Eval σ Flow}
    {evaluate : Context → Expr → Eval σ Operand} {turns : Nat} {s : Stmt}
    (h : statementOf t execute evaluate turns ctx a s w = .ok flow u) (hs : s.entity?.isSome) :
    ∃ b, u.store.cells.back? = some b ∧ Declares t.hosts ctx.modules a s b := by
  cases s with
  | function symbol params body =>
    obtain ⟨closure, w₁, -, h⟩ := eq_ok_of_bind h
    obtain ⟨_, w₂, -, h⟩ := eq_ok_of_bind h
    exact ⟨_, newest_of_declare h, .function⟩
  | classDecl symbol fields methods => exact ⟨_, newest_of_declare h, .classDecl⟩
  | module symbol fields methods =>
    obtain ⟨scope, w₁, -, h⟩ := eq_ok_of_bind h
    obtain ⟨_, w₂, -, h⟩ := eq_ok_of_bind h
    exact ⟨_, newest_of_declare h, .module⟩
  | importHost symbol target =>
    rw [statementOf, importHost] at h
    cases hname : t.names.get? symbol with
    | none =>
      rw [hname] at h
      cases h
    | some name =>
      rw [hname] at h
      dsimp only at h
      cases hfound : t.hosts.get? name with
      | none =>
        rw [hfound] at h
        cases h
      | some f =>
        rw [hfound] at h
        exact ⟨_, newest_of_declare h, .importHost (List.mem_of_find?_eq_some hfound)⟩
  | _ => cases hs

theorem newest_of_execute {n : Nat} {s : Stmt} (h : execute t n ctx a s w = .ok flow u)
    (hs : s.entity?.isSome) :
    ∃ b, u.store.cells.back? = some b ∧ Declares t.hosts ctx.modules a s b := by
  cases n with
  | zero => cases h
  | succ n =>
    rw [execute, statement, Eval.mapFailure] at h
    split at h
    · cases h
    · obtain ⟨_, v, -, h⟩ := eq_ok_of_bind h
      exact newest_of_statementOf h hs

end Newest

/-! ## Sites -/

namespace Scene

variable (c : Scene σ)

/-- The image holds a statement at the address, of which this is the normalized form, and these are
the modules around it. -/
def Site (modules : List Symbol) (a : Address) (body : Stmt) : Prop :=
  ∃ s, Placed c.image c.program a s ∧ body = s.normalize ∧ modules = modulesAround c.program a

variable {c}

/-- The statements inside those at sites are at sites. -/
theorem Site.child {modules : List Symbol} {a : Address} {s d : Stmt} {edge : Edge}
    (h : c.Site modules a s) (hedge : child? s edge = some d) :
    c.Site (modules ++ s.opens) (a.child edge) d := by
  obtain ⟨s, hplaced, rfl, rfl⟩ := h
  rw [child?_normalize] at hedge
  obtain ⟨d, hinside, rfl⟩ := Option.map_eq_some_iff.1 hedge
  refine ⟨d, hplaced.child hinside, rfl, ?_⟩
  rw [modulesAround_child hplaced.part hinside, s.opens_normalize]

/-- The statements of the program are at sites. -/
theorem Site.root {i : Nat} {s : Stmt} (h : (Stmt.normalizeAll c.program)[i]? = some s) :
    c.Site [] { index := i } s := by
  rw [Stmt.normalizeAll_eq_map, List.getElem?_map] at h
  obtain ⟨s, hs, rfl⟩ := Option.map_eq_some_iff.1 h
  exact ⟨s, .root c.holds c.encodable hs, rfl, (modulesAround_index c.program i).symm⟩

variable (c)

/-- The evaluator goes from site to site. -/
def lexical : Alignment σ :=
  .ofSites c.trees c.Site Site.child

variable {c} {w : World σ}

/-- What has been declared at sites is admitted. -/
theorem sound_of_lexical (h : c.lexical.Sound w) : c.Sound w := by
  intro cell b hb
  have hadmits := h cell b hb
  cases b with
  | function f =>
    obtain ⟨s, hplaced, hbody, -⟩ := hadmits.body
    exact ⟨s, hplaced, hbody⟩
  | host name f =>
    rcases hadmits with ⟨_, _, ⟨⟩⟩ | ⟨_, _, _, -, hdeclares⟩
    cases hdeclares with
    | importHost hf => exact hf
  | «variable» | classInfo | module => trivial

end Scene

end Tree

/-! ## Runs -/

/-- Every function, class, module and host function in the store has been declared by a statement
of the program. -/
def Store.LexicallyNamed (program : List Stmt) (store : Store (Binding σ)) : Prop :=
  ∀ cell binding, store.read? cell = some binding → binding.name?.isSome →
    ∃ a s, Tree.part? program a = some s ∧ Tree.DeclaredAt program a s binding

/-- In the state a statement of the program begins, in the modules around it. -/
structure State.BeginsAt (m : Setup σ) (program : List Stmt) (a : Tree.Address) (s : Stmt)
    (t : State σ) : Prop where
  /-- The statement stands at the address. -/
  placed : Tree.Placed m.program.image program a s
  /-- The position is that of the statement. -/
  position : t.position = Tree.offset program a
  /-- No other statement stands at the position. -/
  only : ∀ a' s', Tree.part? program a' = some s' → Tree.offset program a' = t.position → a' = a
  /-- The modules are those around the statement. -/
  modules : t.modules = Tree.modulesAround program a
  /-- What has been declared before has been declared by statements. -/
  named : t.store.LexicallyNamed program
  /-- If the statement declares an entity, its execution ends with the declaration. -/
  declares : s.entity?.isSome → ∀ n flow u, Machine.execute m n t = .ok flow u →
    ∃ binding, u.store.cells.back? = some binding ∧ Tree.DeclaredAt program a s binding

namespace Tree.Scene

variable {c : Scene σ} {ctx : Context} {w : World σ}

/-- Where only declared entities are bound, the machine has only declared entities. -/
theorem lexicallyNamed (h : c.lexical.Sound w) (p : Nat) :
    (c.state ctx p w).store.LexicallyNamed c.program := by
  intro cell binding hread hname
  rw [Scene.state, Store.read?_map] at hread
  obtain ⟨b, hb, rfl⟩ := Option.map_eq_some_iff.1 hread
  rcases h cell b hb with ⟨_, _, rfl⟩ | ⟨_, a, _, ⟨s, hplaced, rfl, rfl⟩, hdeclares⟩
  · cases hname
  · exact ⟨a, s, hplaced.part, hdeclares.declaredAt⟩

/-- At a site a statement of the program begins. -/
theorem beginsAt {a : Address} {body : Stmt} (hsite : c.Site ctx.modules a body)
    (h : c.lexical.Sound w) :
    ∃ s, (c.state ctx (offset c.program a) w).BeginsAt c.setup c.program a s := by
  obtain ⟨s, hplaced, -, hmodules⟩ := hsite
  refine ⟨s, hplaced, rfl, fun a' s' hpart hsame => ?_, hmodules, lexicallyNamed h _,
    fun hs n flow u hexecute => ?_⟩
  · exact address_eq_of_offset_eq hpart hplaced.part hsame
  · -- The machine ends as the evaluator does, which has just declared the entity.
    have hsimulates := execute_simulates c n ctx a s hplaced
    rw [Simulates] at hsimulates
    have houtcomes := hsimulates w (sound_of_lexical h)
    rw [hexecute] at houtcomes
    generalize hrun : execute c.trees n ctx a s.normalize w = evaluation at houtcomes
    cases houtcomes with
    | @ok _ _ q v hsound hrel =>
      obtain ⟨b, hnewest, hdeclares⟩ := newest_of_execute hrun (by rwa [s.entity?_normalize])
      rw [hmodules] at hdeclares
      refine ⟨b.lower c.program, ?_, hdeclares.declaredAt⟩
      simp [Scene.state, Store.map, hnewest]

/-- Whenever a statement begins, it is a statement of the program in the modules around it. -/
theorem always_beginsAt (hend : codeStart + (Stmt.encodeAll c.program).length =
      c.setup.program.codeEnd) (host : σ) :
    c.setup.Always (fun moment _ => moment.kind = .statement →
      ∃ a s, moment.state.BeginsAt c.setup c.program a s) (.initial c.output c.echoed host) := by
  have hbegins : ∀ ctx a body w, c.Site ctx.modules a body → c.lexical.Sound w →
      ∃ a' s, (c.state ctx (offset c.program a) w).BeginsAt c.setup c.program a' s :=
    fun ctx a body w hsite hw => ⟨a, beginsAt hsite hw⟩
  exact c.always_at_sites (P := fun t => ∃ a s, t.BeginsAt c.setup c.program a s) hend
    (fun i s => Site.root) hbegins host

/-- In the end every entity has been declared. -/
theorem lexicallyNamed_runFrom (hend : codeStart + (Stmt.encodeAll c.program).length =
      c.setup.program.codeEnd) (steps : Nat) (host : σ) :
    (endState (c.setup.runFrom steps
      (.initial c.output c.echoed host))).store.LexicallyNamed c.program := by
  have hends := c.lexical.ends_topLevelWithin (Alignment.aligned_steps c.lexical steps).1
    (fun i s => Site.root) steps host
  have houtcomes := c.outcomes_topLevel (execute_simulates c steps) hend steps host
  rw [Setup.runFrom]
  generalize Machine.topLevel c.setup (Machine.execute c.setup steps) steps _ = execution
    at houtcomes ⊢
  generalize hrun : topLevelWithin (execute c.trees steps .root) steps _ _ = evaluation
    at houtcomes
  cases houtcomes with
  | ok => exact lexicallyNamed (hends.sound_of_ok hrun) _
  | error => exact lexicallyNamed (hends.sound_of_error hrun) _

end Tree.Scene

/-- Qualified names are lexical. Take a builder whose code and whose aliases of imports can be
encoded, and any run of its program. Whenever a statement begins, a single statement of the program
stands at the position, and the modules are those around it in the tree, outermost first, whatever
calls have led there. So every function, class, module and host function that is bound then or in
the end has been declared by a statement of the program, and its qualified name consists of the
modules around that statement and of the symbol, or the alias, that the statement tells; and if the
statement that begins declares such an entity, it is the last one that is bound when the statement
ends. -/
theorem names_lexical (m : Setup σ) (b : Builder) (hcode : b.code.length < 2 ^ 31)
    (haliases : ∀ x ∈ Stmt.aliasesAll b.statements, x.IsMarked)
    (hload : b.program = .ok m.program) (output echoed : Array String) (host : σ) :
    m.Always (fun moment _ => moment.kind = .statement →
      ∃ a s, moment.state.BeginsAt m b.statements a s) (.initial output echoed host) ∧
    ∀ steps, (endState
      (m.runFrom steps (.initial output echoed host))).store.LexicallyNamed b.statements := by
  obtain ⟨program, hosts, config⟩ := m
  obtain ⟨names, rfl⟩ := Builder.eq_of_program (Builder.code_lt_of_program hcode hload) hload
  let c : Tree.Scene σ := {
    setup := {
      program := { image := b.build, codeEnd := codeStart + b.code.length, names }, hosts, config }
    program := b.statements
    output
    echoed
    holds := b.holds_code
    encodable := Stmt.allEncodable_of_length b.statements hcode haliases }
  exact ⟨c.always_beginsAt rfl host, fun steps => c.lexicallyNamed_runFrom rfl steps host⟩

/-- A module with a function that declares a module with another function, and a call of the first
one from outside. -/
def Builder.nested : Builder :=
  Builder.empty.extend [
    .module ⟨1⟩ [] [
      .function ⟨2⟩ [] (.block [.module ⟨3⟩ [] [.function ⟨4⟩ [] (.block [])]])],
    .declare false ⟨5⟩ (some (.accessor (.variable ⟨1⟩) (.call ⟨2⟩ [])))]

/-- The watch that stops a run when a statement begins in these modules. -/
def Watch.inModules (modules : List Symbol) : Watch σ := fun b _ =>
  if b.kind = .statement ∧ b.state.modules = modules then some .exhausted else none

set_option maxRecDepth 4000 in
/-- The inner function is declared during the call, in both modules, and has a name in these. -/
theorem names_lexical_nested :
    let program : Program := { image := Builder.nested.build, codeEnd := 79, names := {} }
    let m : Setup Unit := { program, hosts := {}, config := {} }
    Builder.nested.code.length < 2 ^ 31 ∧
      (∀ x ∈ Stmt.aliasesAll Builder.nested.statements, x.IsMarked) ∧
      Builder.nested.program = .ok m.program ∧
      (∃ moment : Begun Unit, moment.kind = .statement ∧ moment.state.modules = [⟨1⟩, ⟨3⟩] ∧
        ∃ a s, moment.state.BeginsAt m Builder.nested.statements a s) ∧
      ∃ t f, m.runFrom 9 (.initial #[] #[] ()) = .ok () t ∧
        t.store.LexicallyNamed Builder.nested.statements ∧
        t.store.read? ⟨2⟩ = some (.function f) ∧
        f.name = { parent := [⟨1⟩, ⟨3⟩], symbol := ⟨4⟩ } := by
  intro program m
  have haliases : ∀ x ∈ Stmt.aliasesAll Builder.nested.statements, x.IsMarked := by decide
  have hload : Builder.nested.program = .ok m.program := by cbv
  obtain ⟨t, hended, f, hcell, hname⟩ : ∃ t, m.runFrom 9 (.initial #[] #[] ()) = .ok () t ∧
      ∃ f, t.store.read? ⟨2⟩ = some (.function f) ∧
        f.name = { parent := [⟨1⟩, ⟨3⟩], symbol := ⟨4⟩ } := ⟨_, by cbv, _, by cbv, by cbv⟩
  obtain ⟨u, hstopped⟩ : ∃ u, m.runWatched (.inModules [⟨1⟩, ⟨3⟩]) 9 (.initial #[] #[] ()) =
      .error .exhausted u := ⟨_, by cbv⟩
  obtain ⟨hbegins, hends⟩ :=
    names_lexical m Builder.nested (by decide) haliases hload #[] #[] ()
  have hnamed := hends 9
  rw [hended] at hnamed
  have hne : m.runWatched (.inModules [⟨1⟩, ⟨3⟩]) 9 (.initial #[] #[] ()) ≠
      m.runFrom 9 (.initial #[] #[] ()) := by
    rw [hstopped, hended]
    intro heq
    cases heq
  obtain ⟨moment, around, hsome, hmoment⟩ := hbegins.exists_of_ne m hne
  rw [Watch.inModules] at hsome
  split at hsome
  · rename_i hinside
    exact ⟨by decide, haliases, hload, ⟨moment, hinside.1, hinside.2, hmoment hinside.1⟩,
      t, f, hended, hnamed, hcell, hname⟩
  · cases hsome

end Bytewalk
