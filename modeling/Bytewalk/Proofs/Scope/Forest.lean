import Bytewalk.Proofs.Scope.Store

/-!
# Forests of environments

Environments are scopes that have been opened one after the other, as roots or inside of others, and
in which symbols are bound at any time. Whatever the order, a symbol stands for the cell of the
nearest environment around that binds it:

- `Store.lookup?_eq_some_iff`: what is found, and where;
- `Forest.lookup?_add`: what a new binding changes, and for whom;
- `lookup_nearest`: both, after any operations.
-/

namespace Bytewalk

variable {α : Type}

/-! ## Ways out -/

namespace Scope

/-- The scope that is so many scopes further out. -/
def around? (scope : Scope) : Nat → Option Scope
  | 0 => some scope
  | n + 1 => scope.exit?.bind (·.around? n)

variable {scope parent : Scope}

theorem around?_succ (h : scope.exit? = some parent) (n : Nat) :
    scope.around? (n + 1) = parent.around? n := by
  rw [around?, h, Option.bind_some]

theorem around?_succ_of_none (h : scope.exit? = none) (n : Nat) : scope.around? (n + 1) = none := by
  rw [around?, h, Option.bind_none]

/-- What holds of a scope whenever it holds of the scope around, holds of every scope. -/
theorem exit_induction {P : Scope → Prop}
    (h : ∀ scope : Scope, (∀ parent, scope.exit? = some parent → P parent) → P scope)
    (scope : Scope) : P scope := by
  induction hdepth : scope.depth using Nat.strongRecOn generalizing scope with
  | ind n ih =>
    refine h scope fun parent hparent => ih parent.depth ?_ parent rfl
    have := depth_of_exit? hparent
    omega

/-- The depth is the number of steps out to a root. -/
theorem around?_depth (scope : Scope) :
    ∃ root, scope.around? scope.depth = some root ∧ root.exit? = none := by
  induction scope using exit_induction with
  | h scope ih =>
    cases hexit : scope.exit? with
    | none =>
      have hdepth : scope.depth = 0 := by
        rcases scope with ⟨frame, _ | ⟨first, outer⟩⟩
        · rfl
        · cases hexit
      exact ⟨scope, by rw [hdepth, around?], hexit⟩
    | some parent =>
      obtain ⟨root, hroot, hend⟩ := ih parent hexit
      exact ⟨root, by rw [depth_of_exit? hexit, around?_succ hexit, hroot], hend⟩

end Scope

/-! ## Finding symbols -/

namespace Store

variable {store : Store α} {scope parent target : Scope} {s : Symbol} {cell : CellId}

/-- From the first scope the binding of the symbol in the second scope is in sight: the second scope
is the first one or around it, and no scope from the first one up to it binds the symbol. -/
def InSight (store : Store α) (s : Symbol) (scope target : Scope) : Prop :=
  ∃ n, scope.around? n = some target ∧
    ∀ k < n, ∀ between, scope.around? k = some between → store.bindsLocally between s = false

theorem InSight.here (scope : Scope) : store.InSight s scope scope :=
  ⟨0, rfl, fun _ h => absurd h (Nat.not_lt_zero _)⟩

/-- Nothing is in sight behind a scope that binds the symbol. -/
theorem InSight.eq_of_bindsLocally (h : store.InSight s scope target)
    (hbinds : store.bindsLocally scope s = true) : target = scope := by
  obtain ⟨n, htarget, hfree⟩ := h
  cases n with
  | zero => exact (Option.some.inj htarget).symm
  | succ n =>
    have hfirst := hfree 0 (Nat.succ_pos n) scope rfl
    rw [hbinds] at hfirst
    cases hfirst

/-- Where a scope does not bind the symbol, the same is in sight as from the scope around. -/
theorem inSight_iff_of_exit (hfree : store.bindsLocally scope s = false)
    (hexit : scope.exit? = some parent) (hne : target ≠ scope) :
    store.InSight s scope target ↔ store.InSight s parent target := by
  constructor
  · rintro ⟨n, htarget, hbetween⟩
    cases n with
    | zero => exact absurd (Option.some.inj htarget).symm hne
    | succ n =>
      rw [Scope.around?_succ hexit] at htarget
      refine ⟨n, htarget, fun k hk between hbtw => ?_⟩
      exact hbetween (k + 1) (Nat.succ_lt_succ hk) between (by rwa [Scope.around?_succ hexit])
  · rintro ⟨n, htarget, hbetween⟩
    refine ⟨n + 1, by rwa [Scope.around?_succ hexit], fun k hk between hbtw => ?_⟩
    cases k with
    | zero =>
      cases hbtw
      exact hfree
    | succ k =>
      rw [Scope.around?_succ hexit] at hbtw
      exact hbetween k (Nat.lt_of_succ_lt_succ hk) between hbtw

/-- From a root nothing but the root is in sight. -/
theorem InSight.eq_of_root (h : store.InSight s scope target) (hroot : scope.exit? = none) :
    target = scope := by
  obtain ⟨n, htarget, -⟩ := h
  cases n with
  | zero => exact (Option.some.inj htarget).symm
  | succ n =>
    rw [Scope.around?_succ_of_none hroot] at htarget
    cases htarget

/-! ### Lookup along the way out -/

theorem lookup?_of_local (h : store.local? scope.frame s = some cell) :
    store.lookup? scope s = some cell := by
  rw [lookup?, Scope.frames, List.findSome?_cons, h]

theorem lookup?_of_exit (hfree : store.local? scope.frame s = none)
    (hexit : scope.exit? = some parent) : store.lookup? scope s = store.lookup? parent s := by
  rcases scope with ⟨frame, _ | ⟨first, outer⟩⟩
  · cases hexit
  · cases hexit
    rw [lookup?, Scope.frames, List.findSome?_cons, hfree, lookup?, Scope.frames]

theorem lookup?_of_root (hfree : store.local? scope.frame s = none) (hroot : scope.exit? = none) :
    store.lookup? scope s = none := by
  rcases scope with ⟨frame, _ | ⟨first, outer⟩⟩
  · rw [lookup?, Scope.frames, List.findSome?_cons, hfree, List.findSome?_nil]
  · cases hroot

theorem bindsLocally_eq_false : store.bindsLocally scope s = false ↔
    store.local? scope.frame s = none := by
  rw [bindsLocally, Option.isSome_eq_false_iff, Option.isNone_iff_eq_none]

/-- A symbol stands for the cell of the nearest scope that binds it. -/
theorem lookup?_eq_some_iff : store.lookup? scope s = some cell ↔
    ∃ target, store.InSight s scope target ∧ store.local? target.frame s = some cell := by
  induction scope using Scope.exit_induction with
  | h scope ih =>
    cases hlocal : store.local? scope.frame s with
    | some found =>
      have hbinds : store.bindsLocally scope s = true := by rw [bindsLocally, hlocal]; rfl
      rw [lookup?_of_local hlocal]
      constructor
      · exact fun h => ⟨scope, .here scope, hlocal.trans h⟩
      · rintro ⟨target, hsight, htarget⟩
        rwa [hsight.eq_of_bindsLocally hbinds, hlocal] at htarget
    | none =>
      have hfree := bindsLocally_eq_false.2 hlocal
      have hne : ∀ target, store.local? target.frame s = some cell → target ≠ scope := by
        rintro target htarget rfl
        rw [hlocal] at htarget
        cases htarget
      cases hexit : scope.exit? with
      | none =>
        rw [lookup?_of_root hlocal hexit]
        refine ⟨(fun h => by cases h), ?_⟩
        rintro ⟨target, hsight, htarget⟩
        exact absurd (hsight.eq_of_root hexit) (hne target htarget)
      | some parent =>
        -- A scope that does not bind the symbol sees what its parent sees.
        rw [lookup?_of_exit hlocal hexit, ih parent hexit]
        refine exists_congr fun target => and_congr_left fun htarget => ?_
        exact (inSight_iff_of_exit hfree hexit (hne target htarget)).symm

/-- A symbol stands for nothing where no scope on the way out binds it. -/
theorem lookup?_eq_none_iff : store.lookup? scope s = none ↔
    ∀ n around, scope.around? n = some around → store.bindsLocally around s = false := by
  induction scope using Scope.exit_induction with
  | h scope ih =>
    cases hlocal : store.local? scope.frame s with
    | some found =>
      rw [lookup?_of_local hlocal]
      refine ⟨(fun h => by cases h), fun h => ?_⟩
      have hfree := bindsLocally_eq_false.1 (h 0 scope rfl)
      rw [hlocal] at hfree
      cases hfree
    | none =>
      have hfree := bindsLocally_eq_false.2 hlocal
      cases hexit : scope.exit? with
      | none =>
        rw [lookup?_of_root hlocal hexit]
        refine ⟨fun _ n around haround => ?_, fun _ => rfl⟩
        cases n with
        | zero =>
          cases haround
          exact hfree
        | succ n =>
          rw [Scope.around?_succ_of_none hexit] at haround
          cases haround
      | some parent =>
        rw [lookup?_of_exit hlocal hexit, ih parent hexit]
        constructor
        · intro h n around haround
          cases n with
          | zero =>
            cases haround
            exact hfree
          | succ n => exact h n around (by rwa [Scope.around?_succ hexit] at haround)
        · exact fun h n around haround => h (n + 1) around (by rwa [Scope.around?_succ hexit])

end Store

/-! ## Forests -/

/-- A store and the environments that have been made in it, oldest first. -/
structure Forest (α : Type) where
  /-- The store. -/
  store : Store α := .empty
  /-- The environments. -/
  environments : List Scope := []
  /-- The frames of an environment have been opened. -/
  opened : ∀ e ∈ environments, ∀ frame ∈ e.frames, frame.index < store.frames.size := by simp
  /-- No two environments have the same innermost frame. -/
  apart : ∀ e ∈ environments, ∀ e' ∈ environments, e.frame = e'.frame → e = e' := by simp
  /-- What is around an environment is an environment. -/
  closed : ∀ e ∈ environments, ∀ parent, e.exit? = some parent → parent ∈ environments := by simp
  /-- Symbols are bound to cells that are there. -/
  bound : ∀ frame s cell, store.local? frame s = some cell → cell.index < store.cells.size := by
    simp [Store.empty, Store.local?]

/-- What is done with environments. -/
inductive Operation (α : Type) where
  /-- Makes an environment with nothing around it. -/
  | root
  /-- Makes an environment inside another one. -/
  | child (parent : Scope)
  /-- Binds a symbol in an environment. -/
  | add (e : Scope) (s : Symbol) (content : α)

namespace Forest

/-! ### Operations -/

/-- The forest with one more environment, whose innermost frame is new. -/
def opening (f : Forest α) (made : Scope × Store α)
    (hstore : made.2 = { f.store with frames := f.store.frames.push [] })
    (hframe : made.1.frame.index = f.store.frames.size)
    (houter : ∀ frame ∈ made.1.outer, frame.index < f.store.frames.size)
    (hexit : ∀ parent, made.1.exit? = some parent → parent ∈ f.environments) : Forest α where
  store := made.2
  environments := f.environments ++ [made.1]
  opened := by
    simp only [hstore, Array.size_push]
    refine List.forall_mem_append.2 ⟨fun e he frame hmem => ?_, ?_⟩
    · exact Nat.lt_succ_of_lt (f.opened e he frame hmem)
    · refine List.forall_mem_singleton.2 (List.forall_mem_cons.2 ⟨?_, fun frame hmem => ?_⟩)
      · omega
      · exact Nat.lt_succ_of_lt (houter frame hmem)
  apart := by
    -- The new frame is none of those that have been opened.
    have hnew : ∀ e ∈ f.environments, e.frame ≠ made.1.frame := by
      intro e he heq
      have hopened := f.opened e he e.frame List.mem_cons_self
      rw [heq, hframe] at hopened
      exact Nat.lt_irrefl _ hopened
    intro e he e' he' heq
    rcases List.mem_append.1 he with hold | hmade <;>
      rcases List.mem_append.1 he' with hold' | hmade'
    · exact f.apart e hold e' hold' heq
    · rw [List.mem_singleton.1 hmade'] at heq
      exact absurd heq (hnew e hold)
    · rw [List.mem_singleton.1 hmade] at heq
      exact absurd heq.symm (hnew e' hold')
    · rw [List.mem_singleton.1 hmade, List.mem_singleton.1 hmade']
  closed := by
    refine List.forall_mem_append.2 ⟨fun e he parent hparent => ?_, ?_⟩
    · exact List.mem_append_left _ (f.closed e he parent hparent)
    · exact List.forall_mem_singleton.2 fun parent hparent =>
        List.mem_append_left _ (hexit parent hparent)
  bound := by
    intro frame s cell hcell
    have hsame : made.2.local? frame s = f.store.local? frame s := by
      rw [hstore]
      exact f.store.local?_newChild ⟨⟨0⟩, []⟩ frame s
    rw [hsame] at hcell
    simpa only [hstore] using f.bound frame s cell hcell

/-- The forest with one more symbol bound. -/
def binding (f : Forest α) (e : Scope) (s : Symbol) (content : α) : Forest α where
  store := (f.store.bind e s content).2
  environments := f.environments
  opened := by simpa [Store.bind] using f.opened
  apart := f.apart
  closed := f.closed
  bound := by
    intro frame x cell hcell
    have hsize : (f.store.bind e s content).2.cells.size = f.store.cells.size + 1 := by
      simp [Store.bind]
    rw [Store.local?_bind] at hcell
    rw [hsize]
    split at hcell
    · cases hcell
      exact Nat.lt_succ_self _
    · exact Nat.lt_succ_of_lt (f.bound frame x cell hcell)

/-- The forest after an operation. Nothing is done with an environment that has not been made, and a
symbol that is bound already is refused. -/
def step (f : Forest α) : Operation α → Forest α
  | .root => f.opening f.store.newRoot rfl rfl nofun nofun
  | .child parent =>
    if h : parent ∈ f.environments then
      f.opening (f.store.newChild parent) rfl rfl (f.opened parent h)
        fun _ hparent => Option.some.inj hparent ▸ h
    else f
  | .add e s content =>
    if e ∈ f.environments then
      match f.store.add e s content with
      | .ok _ => f.binding e s content
      | .error _ => f
    else f

/-- The forest after all operations. -/
def ofOperations (operations : List (Operation α)) : Forest α :=
  operations.foldl step {}

/-! ### Refused symbols -/

variable {f : Forest α} {e e' : Scope} {s y : Symbol} {content : α}

theorem step_add_of_bound (hbinds : f.store.bindsLocally e s = true) :
    f.step (.add e s content) = f := by
  simp only [step, Store.add, hbinds, ↓reduceIte, ite_self]

theorem step_add_of_free (he : e ∈ f.environments) (hfree : f.store.bindsLocally e s = false) :
    f.step (.add e s content) = f.binding e s content := by
  simp only [step, Store.add, he, hfree, Bool.false_eq_true, ↓reduceIte]

/-! ### A symbol more -/

/-- Nothing has stood for the new cell. -/
theorem lookup?_ne_new (f : Forest α) (e e' : Scope) (s y : Symbol) (content : α) :
    f.store.lookup? e' y ≠ some (f.store.bind e s content).1 := by
  intro h
  obtain ⟨target, -, hlocal⟩ := Store.lookup?_eq_some_iff.1 h
  exact Nat.lt_irrefl _ (f.bound target.frame y _ hlocal)

/-- The environment binds one symbol more, and no other environment does. -/
theorem local?_binding (he : e ∈ f.environments) (he' : e' ∈ f.environments) :
    (f.binding e s content).store.local? e'.frame y =
      if e' = e ∧ y = s then some (f.store.bind e s content).1
      else f.store.local? e'.frame y := by
  have hopened := f.opened e' he' e'.frame List.mem_cons_self
  have hsame : (e'.frame = e.frame ∧ e'.frame.index < f.store.frames.size ∧ y = s) ↔
      (e' = e ∧ y = s) :=
    ⟨fun h => ⟨f.apart e' he' e he h.1, h.2.2⟩, fun h => ⟨congrArg Scope.frame h.1, hopened, h.2⟩⟩
  rw [binding, Store.local?_bind]
  simp only [hsame]

theorem bindsLocally_binding (he : e ∈ f.environments) (he' : e' ∈ f.environments) :
    (f.binding e s content).store.bindsLocally e' y = true ↔
      f.store.bindsLocally e' y = true ∨ e' = e ∧ y = s := by
  rw [Store.bindsLocally, Store.bindsLocally, local?_binding he he']
  split
  · rename_i hnew
    exact ⟨fun _ => .inr hnew, fun _ => rfl⟩
  · rename_i hold
    exact ⟨.inl, fun h => h.resolve_right hold⟩

/-- Other symbols stand for what they did. -/
theorem lookup?_binding_of_ne (content : α) (he : e ∈ f.environments)
    (he' : e' ∈ f.environments) (hy : y ≠ s) :
    (f.binding e s content).store.lookup? e' y = f.store.lookup? e' y := by
  induction e' using Scope.exit_induction with
  | h e' ih =>
    have hlocal : (f.binding e s content).store.local? e'.frame y = f.store.local? e'.frame y := by
      rw [local?_binding he he', if_neg fun h => hy h.2]
    cases hold : f.store.local? e'.frame y with
    | some found => rw [Store.lookup?_of_local (hlocal.trans hold), Store.lookup?_of_local hold]
    | none =>
      cases hexit : e'.exit? with
      | none =>
        rw [Store.lookup?_of_root (hlocal.trans hold) hexit, Store.lookup?_of_root hold hexit]
      | some parent =>
        rw [Store.lookup?_of_exit (hlocal.trans hold) hexit, Store.lookup?_of_exit hold hexit]
        exact ih parent hexit (f.closed e' he' parent hexit)

/-- The new symbol stands for the new cell where it is in sight, and elsewhere for what it did. -/
theorem lookup?_binding_self (content : α) (he : e ∈ f.environments) (he' : e' ∈ f.environments)
    (hfree : f.store.bindsLocally e s = false) :
    (f.store.InSight s e' e → (f.binding e s content).store.lookup? e' s =
      some (f.store.bind e s content).1) ∧
    (¬ f.store.InSight s e' e →
      (f.binding e s content).store.lookup? e' s = f.store.lookup? e' s) := by
  induction e' using Scope.exit_induction with
  | h e' ih =>
    by_cases heq : e' = e
    · subst heq
      have hnew : (f.binding e' s content).store.local? e'.frame s =
          some (f.store.bind e' s content).1 := by
        rw [local?_binding he he', if_pos ⟨rfl, rfl⟩]
      exact ⟨fun _ => Store.lookup?_of_local hnew, fun h => absurd (.here e') h⟩
    have hlocal : (f.binding e s content).store.local? e'.frame s = f.store.local? e'.frame s := by
      rw [local?_binding he he', if_neg fun h => heq h.1]
    cases hold : f.store.local? e'.frame s with
    | some found =>
      -- The binding of the inner environment hides the new one.
      have hbinds : f.store.bindsLocally e' s = true := by rw [Store.bindsLocally, hold]; rfl
      refine ⟨fun h => absurd (h.eq_of_bindsLocally hbinds).symm heq, fun _ => ?_⟩
      rw [Store.lookup?_of_local (hlocal.trans hold), Store.lookup?_of_local hold]
    | none =>
      have hfree' := Store.bindsLocally_eq_false.2 hold
      cases hexit : e'.exit? with
      | none =>
        refine ⟨fun h => absurd (h.eq_of_root hexit).symm heq, fun _ => ?_⟩
        rw [Store.lookup?_of_root (hlocal.trans hold) hexit, Store.lookup?_of_root hold hexit]
      | some parent =>
        rw [Store.lookup?_of_exit (hlocal.trans hold) hexit, Store.lookup?_of_exit hold hexit,
          Store.inSight_iff_of_exit hfree' hexit (Ne.symm heq)]
        exact ih parent hexit (f.closed e' he' parent hexit)

/-- What a symbol stands for in an environment is new just if it is the one that has been bound and
the binding is in sight. Otherwise it is what it has been. -/
theorem lookup?_binding (content : α) (he : e ∈ f.environments) (he' : e' ∈ f.environments)
    (hfree : f.store.bindsLocally e s = false) (y : Symbol) :
    ((f.binding e s content).store.lookup? e' y = some (f.store.bind e s content).1 ↔
      y = s ∧ f.store.InSight s e' e) ∧
    ((f.binding e s content).store.lookup? e' y ≠ some (f.store.bind e s content).1 →
      (f.binding e s content).store.lookup? e' y = f.store.lookup? e' y) := by
  -- Before the symbol was bound, nothing stood for the new cell.
  have hfresh := f.lookup?_ne_new e e' s y content
  by_cases hy : y = s
  · subst hy
    obtain ⟨hseen, hhidden⟩ := lookup?_binding_self content he he' hfree
    by_cases hsight : f.store.InSight y e' e
    · exact ⟨⟨fun _ => ⟨rfl, hsight⟩, fun _ => hseen hsight⟩, fun h => absurd (hseen hsight) h⟩
    · refine ⟨⟨fun h => ?_, fun h => absurd h.2 hsight⟩, fun _ => hhidden hsight⟩
      rw [hhidden hsight] at h
      exact absurd h hfresh
  · have hsame := lookup?_binding_of_ne content he he' hy
    refine ⟨⟨fun h => ?_, fun h => absurd h.1 hy⟩, fun _ => hsame⟩
    rw [hsame] at h
    exact absurd h hfresh

/-- The scopes on the way out of an environment are environments. -/
theorem mem_of_around? (he : e ∈ f.environments) {n : Nat} (h : e.around? n = some e') :
    e' ∈ f.environments := by
  induction n generalizing e with
  | zero =>
    cases h
    exact he
  | succ n ih =>
    cases hexit : e.exit? with
    | none =>
      rw [Scope.around?_succ_of_none hexit] at h
      cases h
    | some parent =>
      rw [Scope.around?_succ hexit] at h
      exact ih (f.closed e he parent hexit) h

end Forest

/-- After any operations, a symbol can be bound in an environment just if the environment does not
bind it. Otherwise it is refused, and nothing changes. If it is bound, the same environments are
there, with the same ones around them. The symbol stands for a new cell in those environments from
which the new binding is in sight, and in no others. Everything else is found as before, and no
other environment binds anything more. A symbol stands for nothing just if no environment on the way
out binds it, and only then it is not found. The depth of an environment is the number of steps out
to the root. -/
theorem lookup_nearest (operations : List (Operation α)) :
    let f := Forest.ofOperations operations
    (∀ e ∈ f.environments, ∀ s content,
      let g := f.step (.add e s content)
      (f.store.bindsLocally e s = true →
        f.store.add e s content = .error (.of (.duplicateSymbol s.display)) ∧ g = f) ∧
      (f.store.bindsLocally e s = false → ∃ cell,
        f.store.add e s content = .ok (cell, g.store) ∧ g.environments = f.environments ∧
        g.store.read? cell = some content ∧
        (∀ other old, f.store.read? other = some old → g.store.read? other = some old) ∧
        ∀ e' ∈ f.environments, ∀ y,
          (g.store.lookup? e' y = some cell ↔ y = s ∧ f.store.InSight s e' e) ∧
          (g.store.lookup? e' y ≠ some cell → g.store.lookup? e' y = f.store.lookup? e' y) ∧
          (g.store.bindsLocally e' y = true ↔
            f.store.bindsLocally e' y = true ∨ e' = e ∧ y = s))) ∧
    ∀ e ∈ f.environments,
      (∀ s, (f.store.lookup? e s = none ↔
          ∀ n around, e.around? n = some around → f.store.bindsLocally around s = false) ∧
        (f.store.lookup? e s = none →
          f.store.find e s = .error (.of (.unknownSymbol s.display))) ∧
        ∀ cell, f.store.lookup? e s = some cell → f.store.find e s = .ok cell) ∧
      ∃ root ∈ f.environments, e.around? e.depth = some root ∧ root.exit? = none := by
  intro f
  refine ⟨fun e he s content => ⟨fun hbound => ⟨?_, Forest.step_add_of_bound hbound⟩, ?_⟩,
    fun e he => ⟨fun s => ⟨Store.lookup?_eq_none_iff, fun hnone => ?_, fun cell hcell => ?_⟩, ?_⟩⟩
  · rw [Store.add, if_pos hbound]
  · intro hfree
    rw [Forest.step_add_of_free he hfree]
    refine ⟨(f.store.bind e s content).1, ?_, rfl, f.store.read?_bind_new e s content,
      fun other old hold => f.store.read?_bind_of_read? hold, fun e' he' y => ?_⟩
    · rw [Store.add, hfree]
      rfl
    · obtain ⟨hnew, hold⟩ := Forest.lookup?_binding content he he' hfree y
      exact ⟨hnew, hold, Forest.bindsLocally_binding he he'⟩
  · rw [Store.find, hnone]
  · rw [Store.find, hcell]
  · obtain ⟨root, hroot, hend⟩ := e.around?_depth
    exact ⟨root, Forest.mem_of_around? he hroot, hroot, hend⟩

/-- A root with two environments inside, one of which has another one inside. -/
def Forest.branching : List (Operation Nat) :=
  let root : Scope := { frame := ⟨0⟩ }
  let child : Scope := { frame := ⟨1⟩, outer := root.frames }
  [.root, .child root, .child child, .child root, .add root ⟨1⟩ 10]

/-- A symbol of the root is bound once more in an environment that has another one inside already.
From now on the inner one finds the new cell, and the unrelated one still finds that of the root. -/
theorem lookup_nearest_branching :
    let f := Forest.ofOperations Forest.branching
    let root : Scope := { frame := ⟨0⟩ }
    let child : Scope := { frame := ⟨1⟩, outer := root.frames }
    let grandchild : Scope := { frame := ⟨2⟩, outer := child.frames }
    let sibling : Scope := { frame := ⟨3⟩, outer := root.frames }
    let g := f.step (.add child ⟨1⟩ 20)
    ∃ cell, f.store.add child ⟨1⟩ 20 = .ok (cell, g.store) ∧
      g.store.lookup? grandchild ⟨1⟩ = some cell ∧
      g.store.lookup? sibling ⟨1⟩ = f.store.lookup? sibling ⟨1⟩ := by
  intro f root child grandchild sibling g
  have hchild : child ∈ f.environments := by decide
  have hgrandchild : grandchild ∈ f.environments := by decide
  have hsibling : sibling ∈ f.environments := by decide
  have hfree : f.store.bindsLocally child ⟨1⟩ = false := by rfl
  obtain ⟨cell, hadd, -, -, -, hfound⟩ :=
    ((lookup_nearest Forest.branching).1 child hchild ⟨1⟩ 20).2 hfree
  have hsight : f.store.InSight ⟨1⟩ grandchild child :=
    (Store.inSight_iff_of_exit (by rfl) rfl (by decide)).2 (.here child)
  have hhidden : ¬ f.store.InSight ⟨1⟩ sibling child := by
    intro h
    have hroot := (Store.inSight_iff_of_exit (by rfl) rfl (by decide)).1 h
    exact absurd (hroot.eq_of_bindsLocally (by rfl)) (by decide)
  refine ⟨cell, hadd, ((hfound grandchild hgrandchild ⟨1⟩).1).2 ⟨rfl, hsight⟩, ?_⟩
  obtain ⟨hnew, hold, -⟩ := hfound sibling hsibling ⟨1⟩
  exact hold fun h => hhidden (hnew.1 h).2

end Bytewalk
