import Bytewalk.Scope.Store

/-!
# What stores hold

What a cell holds and what a frame binds after a store has changed, and stores that hold other
content in the same cells or bind the same cells to other symbols.
-/

namespace Bytewalk

/-- Among renamed symbols a renamed one is found where it has been found before. -/
theorem lookup_map_rename {β : Type} {r : Symbol → Symbol} (hr : Function.Injective r)
    (entries : List (Symbol × β)) (s : Symbol) :
    (entries.map (Prod.map r id)).lookup (r s) = entries.lookup s := by
  induction entries with
  | nil => rfl
  | cons entry rest ih =>
    obtain ⟨x, b⟩ := entry
    have hsame : (r s == r x) = (s == x) := by
      rw [Bool.eq_iff_iff, beq_iff_eq, beq_iff_eq, hr.eq_iff]
    rw [List.map_cons, Prod.map_apply, List.lookup_cons, List.lookup_cons, hsame, ih]
    rfl

namespace Store

variable {α β : Type}

/-! ## Changes -/

section Changes

variable (store : Store α)

/-- What a cell holds after another content has been bound. -/
theorem read?_bind {scope : Scope} {s : Symbol} {content found : α} {cell : CellId}
    (h : (store.bind scope s content).2.read? cell = some found) :
    store.read? cell = some found ∨ found = content := by
  simp only [bind, read?, Array.getElem?_push] at h
  split at h
  · exact .inr (Option.some.inj h).symm
  · exact .inl h

/-- What a cell holds after a cell has been written. -/
theorem read?_write {cell other : CellId} {content found : α}
    (h : (store.write cell content).read? other = some found) :
    store.read? other = some found ∨ found = content := by
  simp only [write, read?, Array.getElem?_setIfInBounds] at h
  split at h
  · split at h
    · exact .inr (Option.some.inj h).symm
    · cases h
  · exact .inl h

/-- A cell that holds something holds the same after another content has been bound. -/
theorem read?_bind_of_read? {scope : Scope} {s : Symbol} {content found : α} {cell : CellId}
    (h : store.read? cell = some found) :
    (store.bind scope s content).2.read? cell = some found := by
  obtain ⟨hinside, -⟩ := Array.getElem?_eq_some_iff.1 h
  rw [read?, bind, Array.getElem?_push, if_neg (Nat.ne_of_lt hinside)]
  exact h

/-- The new cell holds what has been bound. -/
@[simp]
theorem read?_bind_new (scope : Scope) (s : Symbol) (content : α) :
    (store.bind scope s content).2.read? (store.bind scope s content).1 = some content := by
  simp [bind, read?]

/-- The other cells hold the same after a cell has been written. -/
theorem read?_write_of_ne {cell other : CellId} (hne : other ≠ cell) (content : α) :
    (store.write cell content).read? other = store.read? other := by
  have hindex : cell.index ≠ other.index := fun h => hne (by cases cell; cases other; cases h; rfl)
  rw [write, read?, Array.getElem?_setIfInBounds_ne hindex, read?]

/-- A cell that holds something holds what is written. -/
theorem read?_write_self {cell : CellId} {found : α} (h : store.read? cell = some found)
    (content : α) : (store.write cell content).read? cell = some content := by
  obtain ⟨hinside, -⟩ := Array.getElem?_eq_some_iff.1 h
  rw [write, read?, Array.getElem?_setIfInBounds_self_of_lt hinside]

/-- A new frame binds nothing, and the others bind what they did. -/
@[simp]
theorem local?_newChild (parent : Scope) (frame : FrameId) (s : Symbol) :
    (store.newChild parent).2.local? frame s = store.local? frame s := by
  simp only [newChild, local?, Array.getD_eq_getD_getElem?, Array.getElem?_push]
  split
  · rename_i hnew
    simp [hnew]
  · rfl

/-- A frame that has not been opened binds nothing. -/
theorem local?_of_size_le {frame : FrameId} (h : store.frames.size ≤ frame.index) (s : Symbol) :
    store.local? frame s = none := by
  simp [local?, Array.getD_eq_getD_getElem?, Array.getElem?_eq_none h]

/-- Nothing but the new symbol is bound in the frame, if the frame has been opened. -/
theorem local?_bind (scope : Scope) (s : Symbol) (content : α) (frame : FrameId) (x : Symbol) :
    (store.bind scope s content).2.local? frame x =
      if frame = scope.frame ∧ frame.index < store.frames.size ∧ x = s then
        some (store.bind scope s content).1
      else store.local? frame x := by
  by_cases hframe : frame = scope.frame
  · subst hframe
    by_cases hopen : scope.frame.index < store.frames.size
    · have hstored := Array.getElem?_eq_getElem hopen
      rw [local?, local?, bind, Array.getD_eq_getD_getElem?, Array.getD_eq_getD_getElem?]
      by_cases hx : x = s
      · simp only [Array.getElem?_modify, hstored]
        simp [hopen, hx]
      · have hother : (x == s) = false := beq_eq_false_iff_ne.2 hx
        simp only [Array.getElem?_modify, hstored]
        simp [hx, List.lookup_cons, hother]
    · have hsize : store.frames.size ≤ scope.frame.index := Nat.not_lt.1 hopen
      rw [if_neg fun h => hopen h.2.1, local?_of_size_le _ hsize]
      exact local?_of_size_le _ (by simpa [bind] using hsize) x
  · have hindex : scope.frame.index ≠ frame.index := by
      intro h
      exact hframe (congrArg FrameId.mk h.symm)
    rw [if_neg fun h => hframe h.1]
    simp [local?, bind, Array.getD_eq_getD_getElem?, Array.getElem?_modify, hindex]

end Changes

/-! ## Other content -/

/-- The store with other content in every cell. -/
def map (f : α → β) (store : Store α) : Store β :=
  { frames := store.frames, cells := store.cells.map f }

variable (f : α → β) (store : Store α)

/-- The content of a cell is the other content. -/
@[simp]
theorem read?_map (cell : CellId) : (store.map f).read? cell = (store.read? cell).map f := by
  simp [map, read?]

/-- Content is written as the other content. -/
@[simp]
theorem write_map (cell : CellId) (content : α) :
    (store.map f).write cell (f content) = (store.write cell content).map f := by
  simp [map, write]

/-- Content is bound as the other content. -/
@[simp]
theorem bind_map (scope : Scope) (s : Symbol) (content : α) :
    ((store.map f).bind scope s (f content)).2 = (store.bind scope s content).2.map f := by
  simp [map, bind]

@[simp]
theorem local?_map (frame : FrameId) (s : Symbol) :
    (store.map f).local? frame s = store.local? frame s := rfl

theorem map_id : store.map id = store := by
  rw [map, Array.map_id]

/-! ## Other symbols -/

/-- The store in which other symbols are bound to the same cells. -/
def rename (r : Symbol → Symbol) (store : Store α) : Store α :=
  { store with frames := store.frames.map (List.map (Prod.map r id)) }

section Rename

variable (r : Symbol → Symbol)

@[simp]
theorem read?_rename (cell : CellId) : (store.rename r).read? cell = store.read? cell := rfl

@[simp]
theorem newChild_rename (parent : Scope) :
    (store.rename r).newChild parent =
      ((store.newChild parent).1, (store.newChild parent).2.rename r) := by
  simp [newChild, rename]

@[simp]
theorem write_rename (cell : CellId) (content : α) :
    (store.rename r).write cell content = (store.write cell content).rename r := rfl

@[simp]
theorem bind_rename (scope : Scope) (s : Symbol) (content : α) :
    (store.rename r).bind scope (r s) content =
      ((store.bind scope s content).1, (store.bind scope s content).2.rename r) := by
  simp only [bind, rename, Prod.mk.injEq, Store.mk.injEq, and_true, true_and]
  ext i hi hi'
  · simp
  · simp only [Array.getElem_map, Array.getElem_modify]
    split <;> simp

theorem rename_id : store.rename id = store := by
  simp [rename]

variable {r} (hr : Function.Injective r)
include hr

theorem local?_rename (frame : FrameId) (s : Symbol) :
    (store.rename r).local? frame (r s) = store.local? frame s := by
  have hframe : (store.rename r).frames.getD frame.index [] =
      (store.frames.getD frame.index []).map (Prod.map r id) := by
    simp only [rename, Array.getD_eq_getD_getElem?, Array.getElem?_map]
    cases store.frames[frame.index]? <;> rfl
  rw [local?, hframe, lookup_map_rename hr, local?]

theorem bindsLocally_rename (scope : Scope) (s : Symbol) :
    (store.rename r).bindsLocally scope (r s) = store.bindsLocally scope s := by
  rw [bindsLocally, local?_rename store hr, bindsLocally]

theorem lookup?_rename (scope : Scope) (s : Symbol) :
    (store.rename r).lookup? scope (r s) = store.lookup? scope s := by
  simp only [lookup?, local?_rename store hr]

end Rename

end Store

end Bytewalk
