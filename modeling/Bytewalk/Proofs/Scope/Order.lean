import Mathlib.Data.List.Chain
import Bytewalk.Proofs.Scope.Growth

/-!
# Orderly stores

The closure of a function is a frame of its own, which binds the parameters to cells that nobody
uses: the frame is reserved. Calls run in frames that stand inside of the closure and bind the
parameters once more, so that no scope leads to the reserved cells.

`Store.Orderly` is the invariant of a run that says so of everything in a store, and `Store.Lexical`
says of the frames of a scope that they hide the closures among them. What is orderly stays orderly
along the changes that a run makes: a frame is opened, a symbol is bound, a variable is written and
a function is declared. `Lexical.lookup?` draws the conclusion for names.
-/

namespace Bytewalk.Store

variable {σ α : Type}

/-! ## Reserved frames -/

/-- The frame has been opened and binds just these symbols. -/
structure BindsJust (store : Store α) (frame : FrameId) (names : List Symbol) : Prop where
  /-- The frame has been opened. -/
  opened : frame.index < store.frames.size
  /-- The symbols are different from each other. -/
  nodup : names.Nodup
  /-- They are the bound ones. -/
  isSome_iff : ∀ s, (store.local? frame s).isSome ↔ s ∈ names

namespace BindsJust

variable {u v : Store α} {frame : FrameId} {names : List Symbol}

/-- A new frame binds nothing. -/
theorem newChild (u : Store α) (parent : Scope) :
    (u.newChild parent).2.BindsJust (u.newChild parent).1.frame [] where
  opened := by simp [Store.newChild]
  nodup := List.nodup_nil
  isSome_iff s := by
    have hnew : u.local? (u.newChild parent).1.frame s = none :=
      u.local?_of_size_le (Nat.le_refl _) s
    simp [hnew]

/-- One more symbol is bound. -/
theorem bind {scope : Scope} {s : Symbol} (h : u.BindsJust scope.frame names)
    (hunbound : u.local? scope.frame s = none) (content : α) :
    (u.bind scope s content).2.BindsJust scope.frame (names ++ [s]) where
  opened := by simpa [Store.bind] using h.opened
  nodup := by
    have hs : s ∉ names := fun hmem => by simpa [hunbound] using (h.isSome_iff s).2 hmem
    refine List.nodup_append.2 ⟨h.nodup, by simp, fun x hx y hy => ?_⟩
    rw [List.mem_singleton.1 hy]
    exact ne_of_mem_of_not_mem hx hs
  isSome_iff x := by
    rw [local?_bind]
    by_cases hx : x = s
    · simp [hx, h.opened]
    · simp [hx, h.isSome_iff x]

/-- Frames that bind the same symbols bind just the same. -/
theorem mem_iff {names' : List Symbol} (h : u.BindsJust frame names)
    (h' : u.BindsJust frame names') (s : Symbol) : s ∈ names ↔ s ∈ names' :=
  (h.isSome_iff s).symm.trans (h'.isSome_iff s)

end BindsJust

/-- The frame is kept free for the parameters of a function: it binds just these, to variables
without a value. -/
structure Reserves (store : Store (Binding σ)) (frame : FrameId) (params : List Symbol) : Prop
    extends store.BindsJust frame params where
  /-- The cells hold placeholders. -/
  placeholder : ∀ s cell, store.local? frame s = some cell →
    store.read? cell = some .uninitialized

/-- What is reserved stays so where nothing about the frame changes. -/
theorem Reserves.congr {u v : Store (Binding σ)} {frame : FrameId} {params : List Symbol}
    (h : u.Reserves frame params) (hopened : u.frames.size ≤ v.frames.size)
    (hlocal : ∀ s, v.local? frame s = u.local? frame s)
    (hread : ∀ s cell, u.local? frame s = some cell → v.read? cell = some .uninitialized) :
    v.Reserves frame params where
  opened := Nat.lt_of_lt_of_le h.opened hopened
  nodup := h.nodup
  isSome_iff s := by rw [hlocal, h.isSome_iff]
  placeholder s cell hcell := hread s cell (hlocal s ▸ hcell)

/-- The frame binds the symbol to a variable that may be written. -/
def BindsVariable (store : Store (Binding σ)) (frame : FrameId) (s : Symbol) : Prop :=
  ∃ cell value, store.local? frame s = some cell ∧
    store.read? cell = some (.variable false value)

/-- A variable stays where it is bound. -/
theorem BindsVariable.later {u v : Store (Binding σ)} {frame : FrameId} {s : Symbol}
    (h : u.BindsVariable frame s) (hlater : u.Later v) : v.BindsVariable frame s :=
  let ⟨cell, _, hbound, hread⟩ := h
  let ⟨value, hvalue⟩ := hlater.read?_variable hread
  ⟨cell, value, hlater.bound frame s cell hbound, hvalue⟩

/-- The frame binds just these symbols, each to a variable: this is how a call begins with the
parameters of its function. -/
structure BindsArguments (store : Store (Binding σ)) (frame : FrameId) (names : List Symbol) : Prop
    extends store.BindsJust frame names where
  /-- The symbols are bound to variables. -/
  isVariable : ∀ s ∈ names, store.BindsVariable frame s

/-- One more variable is bound. -/
theorem BindsArguments.bind {u : Store (Binding σ)} {scope : Scope} {names : List Symbol}
    {s : Symbol} (h : u.BindsArguments scope.frame names)
    (hunbound : u.local? scope.frame s = none) (value : Value) :
    (u.bind scope s (.variable false value)).2.BindsArguments scope.frame (names ++ [s]) where
  toBindsJust := h.toBindsJust.bind hunbound _
  isVariable := by
    have hlater : u.Later (u.bind scope s (.variable false value)).2 :=
      (Later.refl u).bind hunbound nofun
    refine List.forall_mem_append.2 ⟨fun x hx => (h.isVariable x hx).later hlater, ?_⟩
    refine List.forall_mem_singleton.2 ⟨_, value, ?_, u.read?_bind_new scope s _⟩
    rw [local?_bind, if_pos ⟨rfl, h.opened, rfl⟩]

/-- The frame is not the closure of a function. -/
def Unreserved (store : Store (Binding σ)) (frame : FrameId) : Prop :=
  ∀ f, store.Declares f → f.closure.frame ≠ frame

/-- The inner frame hides what the outer one binds for a function: it binds the parameters to
variables of its own. -/
def Hides (store : Store (Binding σ)) (inner outer : FrameId) : Prop :=
  ∀ f, store.Declares f → f.closure.frame = outer → ∀ s ∈ f.params, store.BindsVariable inner s

/-- Going outwards along the frames, one meets no closure of a function before a frame that hides
it. -/
structure Lexical (store : Store (Binding σ)) (frames : List FrameId) : Prop where
  /-- The frames have been opened. -/
  opened : ∀ frame ∈ frames, frame.index < store.frames.size
  /-- The innermost frame is no closure. -/
  unreserved : ∀ frame ∈ frames.head?, store.Unreserved frame
  /-- The others are hidden where they are closures. -/
  hides : frames.IsChain store.Hides

section Later

variable {u v : Store (Binding σ)} {frame inner outer : FrameId} {frames : List FrameId}

theorem Unreserved.later (h : u.Unreserved frame) (hopen : frame.index < u.frames.size)
    (hlater : u.Later v) : v.Unreserved frame := by
  rintro f hf rfl
  exact h f (hlater.declares_of_lt hf hopen) rfl

theorem Hides.later (h : u.Hides inner outer) (hopen : outer.index < u.frames.size)
    (hlater : u.Later v) : v.Hides inner outer := by
  rintro f hf rfl s hs
  exact (h f (hlater.declares_of_lt hf hopen) rfl s hs).later hlater

/-- Frames stay lexical. -/
theorem Lexical.later (h : u.Lexical frames) (hlater : u.Later v) : v.Lexical frames where
  opened frame hframe := Nat.lt_of_lt_of_le (h.opened frame hframe) hlater.opened
  unreserved frame hframe :=
    (h.unreserved frame hframe).later (h.opened frame (List.mem_of_mem_head? hframe)) hlater
  hides := h.hides.imp_of_mem_imp fun _ outer _ houter hhides =>
    hhides.later (h.opened outer houter) hlater

end Later

namespace Lexical

variable {u : Store (Binding σ)} {frame : FrameId} {frames : List FrameId}

/-- What is unreserved needs not be hidden. -/
theorem cons (h : u.Lexical frames) (hopen : frame.index < u.frames.size)
    (hfree : u.Unreserved frame) : u.Lexical (frame :: frames) where
  opened := List.forall_mem_cons.2 ⟨hopen, h.opened⟩
  unreserved other hother := by
    cases hother
    exact hfree
  hides := h.hides.cons fun outer houter f hf heq => absurd heq (h.unreserved outer houter f hf)

end Lexical

/-! ## The invariant -/

/-- What a binding has to do with frames is in order. -/
def Admits (store : Store (Binding σ)) : Binding σ → Prop
  | .function f => store.Reserves f.closure.frame f.params ∧ store.Lexical f.closure.outer
  | .classInfo c => store.Lexical c.closure.frames
  | .module info => store.Lexical info.scope.frames
  | .variable _ _ | .host _ _ => True

/-- Frames and cells are in order. -/
structure Orderly (store : Store (Binding σ)) : Prop where
  /-- Symbols are bound to cells that there are. -/
  inside : ∀ frame s cell, store.local? frame s = some cell → cell.index < store.cells.size
  /-- No two symbols, and no two frames, share a cell. -/
  unique : ∀ frame s frame' s' cell, store.local? frame s = some cell →
    store.local? frame' s' = some cell → frame = frame' ∧ s = s'
  /-- What the cells hold is in order. -/
  admits : ∀ cell b, store.read? cell = some b → store.Admits b

namespace Orderly

variable {u v : Store (Binding σ)}

/-- The closure of a function is reserved for its parameters. -/
theorem reserves (h : u.Orderly) {f : Function} (hf : u.Declares f) :
    u.Reserves f.closure.frame f.params :=
  let ⟨cell, hcell⟩ := hf
  (h.admits cell _ hcell).1

/-- The frames around a closure are lexical. -/
theorem lexical (h : u.Orderly) {f : Function} (hf : u.Declares f) : u.Lexical f.closure.outer :=
  let ⟨cell, hcell⟩ := hf
  (h.admits cell _ hcell).2

/-- What has not been opened is no closure. -/
theorem unreserved_of_size_le (h : u.Orderly) {frame : FrameId}
    (hsize : u.frames.size ≤ frame.index) : u.Unreserved frame := by
  rintro f hf rfl
  exact absurd (h.reserves hf).opened (Nat.not_lt.2 hsize)

/-- A new frame is no closure. -/
theorem unreserved_newChild (h : u.Orderly) (parent : Scope) :
    (u.newChild parent).2.Unreserved (u.newChild parent).1.frame :=
  h.unreserved_of_size_le (Nat.le_refl _)

/-- The cell of a symbol in an unreserved frame is no placeholder. -/
theorem ne_placeholder (h : u.Orderly) {frame : FrameId} {s : Symbol} {cell : CellId}
    (hcell : u.local? frame s = some cell) (hfree : u.Unreserved frame) {f : Function}
    (hf : u.Declares f) (param : Symbol) : u.local? f.closure.frame param ≠ some cell :=
  fun hparam => hfree f hf (h.unique _ _ _ _ _ hparam hcell).1

/-- A store is in order where the closures of an earlier one are still reserved and what is new is
in order. -/
theorem step (h : u.Orderly) (hlater : u.Later v)
    (hinside : ∀ frame s cell, v.local? frame s = some cell → cell.index < v.cells.size)
    (hunique : ∀ frame s frame' s' cell, v.local? frame s = some cell →
      v.local? frame' s' = some cell → frame = frame' ∧ s = s')
    (hreserves : ∀ f, u.Declares f → v.Reserves f.closure.frame f.params)
    (hadmits : ∀ cell b, v.read? cell = some b → u.read? cell = some b ∨ v.Admits b) :
    v.Orderly where
  inside := hinside
  unique := hunique
  admits cell b hb := by
    rcases hadmits cell b hb with hold | hnew
    · have hu := h.admits cell b hold
      cases b with
      | function f => exact ⟨hreserves f ⟨cell, hold⟩, hu.2.later hlater⟩
      | classInfo c => exact Lexical.later hu hlater
      | module info => exact Lexical.later hu hlater
      | «variable» | host => exact trivial
    · exact hnew

/-! ### Changes -/

/-- A frame may be opened. -/
theorem newChild (h : u.Orderly) (parent : Scope) : (u.newChild parent).2.Orderly := by
  have hlater := Later.newChild u parent
  refine h.step hlater ?_ ?_ (fun f hf => ?_) fun _ _ => .inl
  · exact fun frame s cell hs => h.inside frame s cell (by simpa using hs)
  · simpa using h.unique
  · exact (h.reserves hf).congr hlater.opened (fun s => by simp) (h.reserves hf).placeholder

section Bind

variable {scope : Scope} {s : Symbol} (content : Binding σ)

/-- Bound cells are bound once, also where a new one has been bound. -/
theorem unique_bind (h : u.Orderly) (frame : FrameId) (x : Symbol) (frame' : FrameId) (x' : Symbol)
    (cell : CellId) (hx : (u.bind scope s content).2.local? frame x = some cell)
    (hx' : (u.bind scope s content).2.local? frame' x' = some cell) : frame = frame' ∧ x = x' := by
  -- What was bound before is not bound to the new cell.
  have hold : ∀ frame x, u.local? frame x ≠ some (u.bind scope s content).1 :=
    fun frame x hx => Nat.lt_irrefl _ (h.inside frame x _ hx)
  rw [local?_bind] at hx hx'
  split at hx <;> split at hx'
  · rename_i hnew hnew'
    exact ⟨hnew.1.trans hnew'.1.symm, hnew.2.2.trans hnew'.2.2.symm⟩
  · exact absurd (hx'.trans hx.symm) (hold _ _)
  · exact absurd (hx.trans hx'.symm) (hold _ _)
  · exact h.unique _ _ _ _ _ hx hx'

/-- Bound cells are there, also where a new one has been bound. -/
theorem inside_bind (h : u.Orderly) (frame : FrameId) (x : Symbol) (cell : CellId)
    (hx : (u.bind scope s content).2.local? frame x = some cell) :
    cell.index < (u.bind scope s content).2.cells.size := by
  rw [local?_bind] at hx
  simp only [Store.bind, Array.size_push]
  split at hx
  · cases hx
    exact Nat.lt_succ_self _
  · exact Nat.lt_succ_of_lt (h.inside frame x cell hx)

/-- What is reserved stays so where something is bound in another frame. -/
theorem reserves_bind (h : u.Orderly) (hfree : u.Unreserved scope.frame) {f : Function}
    (hf : u.Declares f) : (u.bind scope s content).2.Reserves f.closure.frame f.params := by
  refine (h.reserves hf).congr (by simp [Store.bind]) (fun x => ?_) fun x cell hx => ?_
  · rw [local?_bind, if_neg fun hframe => hfree f hf hframe.1]
  · exact u.read?_bind_of_read? ((h.reserves hf).placeholder x cell hx)

/-- Everything in order but a function may be bound where the symbol is unbound. -/
theorem bind (h : u.Orderly) (hunbound : u.local? scope.frame s = none)
    (hfree : u.Unreserved scope.frame) {content : Binding σ} (hcontent : u.Admits content)
    (hne : ∀ f, content ≠ .function f) : (u.bind scope s content).2.Orderly := by
  have hlater : u.Later (u.bind scope s content).2 :=
    (Later.refl u).bind hunbound fun f hf => absurd hf (hne f)
  refine h.step hlater (h.inside_bind content) (h.unique_bind content)
    (fun f hf => h.reserves_bind content hfree hf) fun cell b hb => ?_
  rcases u.read?_bind hb with hold | rfl
  · exact .inl hold
  · cases b with
    | function f => exact absurd rfl (hne f)
    | classInfo c => exact .inr (Lexical.later hcontent hlater)
    | module info => exact .inr (Lexical.later hcontent hlater)
    | «variable» | host => exact .inr trivial

end Bind

end Orderly

/-- The cell holds a variable that may be written. -/
structure Assignable (store : Store (Binding σ)) (cell : CellId) : Prop where
  /-- The cell holds a variable that is no constant. -/
  isVariable : ∃ value, store.read? cell = some (.variable false value)
  /-- The cell is that of a symbol in a frame that is not reserved. -/
  isBound : ∃ frame s, store.local? frame s = some cell ∧ frame.index < store.frames.size ∧
    store.Unreserved frame

theorem Assignable.later {u v : Store (Binding σ)} {cell : CellId} (h : u.Assignable cell)
    (hlater : u.Later v) : v.Assignable cell where
  isVariable :=
    let ⟨_, hvalue⟩ := h.isVariable
    hlater.read?_variable hvalue
  isBound :=
    let ⟨frame, s, hbound, hopen, hfree⟩ := h.isBound
    ⟨frame, s, hlater.bound frame s cell hbound, Nat.lt_of_lt_of_le hopen hlater.opened,
      hfree.later hopen hlater⟩

/-- A variable may be written. -/
theorem Orderly.write {u : Store (Binding σ)} (h : u.Orderly) {cell : CellId}
    (hcell : u.Assignable cell) (value : Value) :
    (u.write cell (.variable false value)).Orderly := by
  obtain ⟨old, hold⟩ := hcell.isVariable
  obtain ⟨frame, s, hbound, -, hfree⟩ := hcell.isBound
  have hlater : u.Later (u.write cell (.variable false value)) := .write hold value
  refine h.step hlater (fun frame s cell hs => ?_) h.unique (fun f hf => ?_) fun other b hb => ?_
  · simpa [Store.write] using h.inside frame s cell hs
  · refine (h.reserves hf).congr hlater.opened (fun _ => rfl) fun x other hx => ?_
    have hne : other ≠ cell := by
      rintro rfl
      exact h.ne_placeholder hbound hfree hf x hx
    rw [u.read?_write_of_ne hne]
    exact (h.reserves hf).placeholder x other hx
  · rcases u.read?_write hb with hold | rfl
    · exact .inl hold
    · exact .inr trivial

/-! ## Scopes -/

namespace Lexical

variable {u v : Store (Binding σ)}

/-- The frames of a new scope inside a lexical one are lexical. -/
theorem newChild {parent : Scope} (h : u.Lexical parent.frames) (horderly : u.Orderly) :
    (u.newChild parent).2.Lexical (u.newChild parent).1.frames := by
  have hlater := Later.newChild u parent
  exact (h.later hlater).cons (BindsJust.newChild u parent).opened
    (horderly.unreserved_newChild parent)

/-- The frames of a call are lexical, because the first one binds the parameters. -/
theorem call (horderly : u.Orderly) {f : Function} (hf : u.Declares f) {frame : FrameId}
    (hframe : u.BindsArguments frame f.params) (hfree : u.Unreserved frame) :
    u.Lexical (frame :: f.closure.frames) where
  opened := List.forall_mem_cons.2 ⟨hframe.opened,
    List.forall_mem_cons.2 ⟨(horderly.reserves hf).opened, (horderly.lexical hf).opened⟩⟩
  unreserved other hother := by
    cases hother
    exact hfree
  hides := by
    have houter := horderly.lexical hf
    refine List.IsChain.cons (houter.hides.cons fun outer hhead g hg heq => ?_) ?_
    · exact absurd heq (houter.unreserved outer hhead g hg)
    · rintro closure hclosure g hg heq s hs
      cases hclosure
      -- Another function with this closure has the same parameters.
      have hclosures : u.BindsJust f.closure.frame g.params :=
        heq ▸ (horderly.reserves hg).toBindsJust
      exact hframe.isVariable s ((hclosures.mem_iff (horderly.reserves hf).toBindsJust s).1 hs)

/-- A name never stands for a placeholder: the nearest frame that binds it is unreserved. -/
theorem lookup? (horderly : u.Orderly) {scope : Scope} (h : u.Lexical scope.frames) {s : Symbol}
    {cell : CellId} (hlookup : u.lookup? scope s = some cell) :
    ∃ frame ∈ scope.frames, u.local? frame s = some cell ∧ u.Unreserved frame := by
  obtain ⟨inner, frame, outer, hframes, hframe, hinner⟩ := List.findSome?_eq_some_iff.1 hlookup
  rw [hframes] at h ⊢
  refine ⟨frame, by simp, hframe, fun f hf heq => ?_⟩
  rcases List.eq_nil_or_concat inner with rfl | ⟨further, last, rfl⟩
  · exact h.unreserved frame (by simp) f hf heq
  -- The frame before would bind the symbol as well, since it is one of the parameters.
  · have hparam : s ∈ f.params := by
      rw [← (horderly.reserves hf).isSome_iff, heq, hframe]
      rfl
    have hhides : u.Hides last frame := by
      have hchain := h.hides
      rw [List.concat_eq_append, List.append_assoc] at hchain
      exact List.IsChain.rel_head? hchain.right_of_append rfl
    obtain ⟨_, _, hlast, -⟩ := hhides f hf heq s hparam
    rw [hinner last (by simp)] at hlast
    cases hlast

/-- A name stands for a variable that may be written, unless it stands for something else. -/
theorem assignable (horderly : u.Orderly) {scope : Scope} (h : u.Lexical scope.frames) {s : Symbol}
    {cell : CellId} (hlookup : u.lookup? scope s = some cell) {value : Value}
    (hread : (u.read? cell).getD default = .variable false value) : u.Assignable cell where
  isVariable := by
    obtain ⟨frame, -, hbound, -⟩ := h.lookup? horderly hlookup
    obtain ⟨b, hb⟩ : ∃ b, u.read? cell = some b :=
      ⟨_, Array.getElem?_eq_getElem (horderly.inside frame s cell hbound)⟩
    rw [hb] at hread
    exact ⟨value, hb.trans (congrArg some hread)⟩
  isBound :=
    let ⟨frame, hframe, hbound, hfree⟩ := h.lookup? horderly hlookup
    ⟨frame, s, hbound, h.opened frame hframe, hfree⟩

end Lexical

/-! ## Declarations of functions -/

/-- Since the first store the frame has been opened for the parameters of a function that has not
been declared yet. -/
structure Drafts (u : Store (Binding σ)) (frame : FrameId) (params : List Symbol)
    (v : Store (Binding σ)) : Prop extends v.Reserves frame params where
  /-- The frame is new. -/
  fresh : u.frames.size ≤ frame.index
  /-- The store is in order. -/
  orderly : v.Orderly
  /-- What has been bound persists. -/
  later : u.Later v
  /-- Only placeholders are new. -/
  content : ∀ cell b, v.read? cell = some b → u.read? cell = some b ∨ b = .uninitialized

namespace Drafts

variable {u v : Store (Binding σ)} {scope : Scope} {params : List Symbol}

/-- The frame is opened. -/
theorem newChild (h : u.Orderly) (parent : Scope) :
    Drafts u (u.newChild parent).1.frame [] (u.newChild parent).2 where
  toBindsJust := .newChild u parent
  placeholder s cell hcell := by
    have hsome := ((BindsJust.newChild u parent).isSome_iff s).1 (hcell ▸ rfl)
    cases hsome
  fresh := Nat.le_refl _
  orderly := h.newChild parent
  later := .newChild u parent
  content _ _ := .inl

/-- The frame is no closure yet. -/
theorem unreserved (h : Drafts u scope.frame params v) (hu : u.Orderly) :
    v.Unreserved scope.frame := by
  rintro f ⟨cell, hcell⟩ heq
  rcases h.content cell _ hcell with hold | hnew
  · refine absurd (hu.reserves ⟨cell, hold⟩).opened (Nat.not_lt.2 ?_)
    rw [heq]
    exact h.fresh
  · cases hnew

/-- One more parameter is bound. -/
theorem bind (h : Drafts u scope.frame params v) (hu : u.Orderly) {param : Symbol}
    (hunbound : v.local? scope.frame param = none) :
    Drafts u scope.frame (params ++ [param]) (v.bind scope param .uninitialized).2 where
  toBindsJust := h.toBindsJust.bind hunbound _
  placeholder s cell hcell := by
    rw [local?_bind] at hcell
    split at hcell
    · cases hcell
      exact v.read?_bind_new scope param _
    · exact v.read?_bind_of_read? (h.placeholder s cell hcell)
  fresh := h.fresh
  orderly := h.orderly.bind hunbound (h.unreserved hu) trivial nofun
  later := h.later.bind hunbound nofun
  content cell b hb := by
    rcases v.read?_bind hb with hold | hnew
    · exact h.content cell b hold
    · exact .inr hnew

/-- The function is declared in the scope around its closure. -/
theorem declare {f : Function} (h : Drafts u f.closure.frame f.params v) (hu : u.Orderly)
    (hscope : u.Lexical scope.frames) (houter : f.closure.outer = scope.frames) {s : Symbol}
    (hunbound : v.local? scope.frame s = none) :
    (v.bind scope s (.function f)).2.Orderly ∧ u.Later (v.bind scope s (.function f)).2 := by
  have hlater : u.Later (v.bind scope s (.function f)).2 :=
    h.later.bind hunbound fun g hg => by cases hg; exact h.fresh
  have hopen : scope.frame.index < u.frames.size := hscope.opened _ List.mem_cons_self
  have hfree : v.Unreserved scope.frame :=
    (hscope.unreserved scope.frame rfl).later hopen h.later
  refine ⟨?_, hlater⟩
  refine hu.step hlater (h.orderly.inside_bind _) (h.orderly.unique_bind _)
    (fun g hg => h.orderly.reserves_bind _ hfree (h.later.declares hg)) fun cell b hb => ?_
  rcases v.read?_bind hb with hv | rfl
  · rcases h.content cell b hv with hold | rfl
    · exact .inl hold
    · exact .inr trivial
  · refine .inr ⟨?_, houter ▸ hscope.later hlater⟩
    -- The function is bound in another frame than the parameters.
    have hne : f.closure.frame ≠ scope.frame := by
      intro heq
      exact absurd (heq ▸ hopen) (Nat.not_lt.2 h.fresh)
    refine h.toReserves.congr (by simp [Store.bind]) (fun x => ?_) fun x cell hx => ?_
    · rw [local?_bind, if_neg fun hframe => hne hframe.1]
    · exact v.read?_bind_of_read? (h.placeholder x cell hx)

end Drafts

end Bytewalk.Store
