import Mathlib.Data.Set.Insert
import Bytewalk.Proofs.Scope.Store
import Bytewalk.Scope.Binding

/-!
# How stores grow

Frames are opened, symbols are bound and cells are written, and nothing else happens to a store.
`Store.Gains` says which frame binds which symbol more than before, `Store.Persists` that nothing
which has been bound is lost or becomes something else, and `Store.Later` that new functions have
new closures. Each of them holds along one change and along one change after the other.
-/

namespace Bytewalk

variable {σ α : Type}

/-! ## New names -/

/-- Of the frames that are numbered below `old`, one may bind one symbol more, out of some names
that it did not bind; the others bind what they did. -/
structure Store.Gains (old : Nat) (frame : FrameId) (names : Set Symbol) (u v : Store α) :
    Prop where
  /-- No frame is closed. -/
  opened : u.frames.size ≤ v.frames.size
  /-- The other frames bind what they did. -/
  others : ∀ other : FrameId, other.index < old → other ≠ frame → ∀ s,
    v.local? other s = u.local? other s
  /-- The frame binds what it did, and maybe one symbol more. -/
  gained : frame.index < old → (∀ s, v.local? frame s = u.local? frame s) ∨
    ∃ new ∈ names, u.local? frame new = none ∧
      ∀ s, s ≠ new → v.local? frame s = u.local? frame s

namespace Store.Gains

variable {old : Nat} {frame : FrameId} {names names' : Set Symbol} {u v w : Store α}

/-- Without new names all the frames bind what they did. -/
theorem of_same (hopened : u.frames.size ≤ v.frames.size)
    (hsame : ∀ other : FrameId, other.index < old → ∀ s, v.local? other s = u.local? other s) :
    Gains old frame names u v where
  opened := hopened
  others other hold _ := hsame other hold
  gained hold := .inl (hsame frame hold)

/-- Where no name may be new, all the frames bind what they did. -/
theorem same (h : Gains old frame ∅ u v) {other : FrameId} (hold : other.index < old)
    (s : Symbol) : v.local? other s = u.local? other s := by
  by_cases hframe : other = frame
  · subst hframe
    rcases h.gained hold with hsame | ⟨new, hnew, -⟩
    · exact hsame s
    · exact hnew.elim
  · exact h.others other hold hframe s

/-- Where no name may be new, it does not matter in which frame. -/
theorem elsewhere (h : Gains old frame ∅ u v) (other : FrameId) : Gains old other names u v :=
  of_same h.opened fun _ hold s => h.same hold s

/-- The names of a new frame do not count. -/
theorem of_new (h : Gains old frame names u v) (hnew : old ≤ frame.index) (other : FrameId) :
    Gains old other names' u v := by
  refine of_same h.opened fun f hold s => h.others f hold ?_ s
  rintro rfl
  exact absurd hold (Nat.not_lt.2 hnew)

@[refl]
theorem refl (old : Nat) (frame : FrameId) (names : Set Symbol) (u : Store α) :
    Gains old frame names u u :=
  of_same (Nat.le_refl _) fun _ _ _ => rfl

theorem mono (h : Gains old frame names u v) (hsub : names ⊆ names') :
    Gains old frame names' u v where
  opened := h.opened
  others := h.others
  gained hold := (h.gained hold).imp id fun ⟨new, hnew, hrest⟩ => ⟨new, hsub hnew, hrest⟩

/-- One change comes after the other, and one of them has no new names. -/
theorem trans (h : Gains old frame names u v) (h' : Gains old frame names' v w)
    (hone : names = ∅ ∨ names' = ∅) : Gains old frame (names ∪ names') u w where
  opened := Nat.le_trans h.opened h'.opened
  others other hold hne s := (h'.others other hold hne s).trans (h.others other hold hne s)
  gained hold := by
    rcases hone with rfl | rfl
    · rcases h'.gained hold with hsame | ⟨new, hnew, hunbound, hsame⟩
      · exact .inl fun s => (hsame s).trans (h.same hold s)
      · refine .inr ⟨new, .inr hnew, (h.same hold new).symm.trans hunbound, fun s hs => ?_⟩
        exact (hsame s hs).trans (h.same hold s)
    · rcases h.gained hold with hsame | ⟨new, hnew, hunbound, hsame⟩
      · exact .inl fun s => (h'.same hold s).trans (hsame s)
      · exact .inr ⟨new, .inl hnew, hunbound, fun s hs => (h'.same hold s).trans (hsame s hs)⟩

theorem newChild (old : Nat) (frame : FrameId) (u : Store α) (parent : Scope) :
    Gains old frame ∅ u (u.newChild parent).2 := by
  refine of_same ?_ fun _ _ _ => by rw [local?_newChild]
  simp [Store.newChild]

theorem write (old : Nat) (frame : FrameId) (u : Store α) (cell : CellId) (content : α) :
    Gains old frame ∅ u (u.write cell content) :=
  of_same (Nat.le_refl _) fun _ _ _ => rfl

theorem bind (old : Nat) {u : Store α} {scope : Scope} {s : Symbol}
    (hunbound : u.local? scope.frame s = none) (content : α) :
    Gains old scope.frame {s} u (u.bind scope s content).2 where
  opened := by simp [Store.bind]
  others other _ hne x := by rw [local?_bind, if_neg fun h => hne h.1]
  gained _ := by
    refine .inr ⟨s, rfl, hunbound, fun x hx => ?_⟩
    rw [local?_bind, if_neg fun h => hx h.2.2]

end Store.Gains

/-! ## Persistent bindings -/

/-- The first binding may become the second one: only a variable that is no constant changes, and
only its value. -/
def Binding.Persists (b b' : Binding σ) : Prop :=
  b' = b ∨ ∃ value value', b = .variable false value ∧ b' = .variable false value'

namespace Binding.Persists

variable {b b' b'' : Binding σ}

@[refl]
theorem refl (b : Binding σ) : b.Persists b :=
  .inl rfl

theorem trans (h : b.Persists b') (h' : b'.Persists b'') : b.Persists b'' := by
  rcases h' with rfl | ⟨value', value'', rfl, rfl⟩
  · exact h
  · rcases h with rfl | ⟨value, _, rfl, -⟩
    · exact .inr ⟨_, _, rfl, rfl⟩
    · exact .inr ⟨_, _, rfl, rfl⟩

/-- The kind of a binding stays. -/
theorem kind_eq (h : b.Persists b') : b'.kind = b.kind := by
  rcases h with rfl | ⟨value, value', rfl, rfl⟩ <;> rfl

/-- Constants stay constants, and variables stay variables. -/
theorem constant?_eq (h : b.Persists b') : b'.constant? = b.constant? := by
  rcases h with rfl | ⟨value, value', rfl, rfl⟩ <;> rfl

/-- Everything but a variable stays what it is, constants included. -/
theorem eq_of_ne (h : b.Persists b') (hne : b.constant? ≠ some false) : b' = b := by
  rcases h with rfl | ⟨value, value', rfl, rfl⟩
  · rfl
  · exact absurd rfl hne

end Binding.Persists

/-- What the first store binds and holds, the second one does: a frame binds the same symbols to
the same cells and maybe further symbols, and every cell holds what it held or, if this is a
variable, another value. -/
structure Store.Persists (u v : Store (Binding σ)) : Prop where
  /-- Symbols stay bound to their cells. -/
  bound : ∀ frame s cell, u.local? frame s = some cell → v.local? frame s = some cell
  /-- Bindings persist. -/
  cells : ∀ cell b, u.read? cell = some b → ∃ b', v.read? cell = some b' ∧ b.Persists b'

namespace Store.Persists

variable {u v w : Store (Binding σ)}

@[refl]
theorem refl (u : Store (Binding σ)) : u.Persists u :=
  ⟨fun _ _ _ => id, fun _ b h => ⟨b, h, .refl b⟩⟩

theorem trans (h : u.Persists v) (h' : v.Persists w) : u.Persists w where
  bound frame s cell hbound := h'.bound frame s cell (h.bound frame s cell hbound)
  cells cell b hb := by
    obtain ⟨b', hb', hpersists⟩ := h.cells cell b hb
    obtain ⟨b'', hb'', hpersists'⟩ := h'.cells cell b' hb'
    exact ⟨b'', hb'', hpersists.trans hpersists'⟩

/-- A binding that cannot change is still there. -/
theorem read?_eq (h : u.Persists v) {cell : CellId} {b : Binding σ}
    (hb : u.read? cell = some b) (hne : b.constant? ≠ some false) : v.read? cell = some b := by
  obtain ⟨b', hb', hpersists⟩ := h.cells cell b hb
  rw [hb', hpersists.eq_of_ne hne]

/-- A variable is still a variable. -/
theorem read?_variable (h : u.Persists v) {cell : CellId} {value : Value}
    (hb : u.read? cell = some (.variable false value)) :
    ∃ value', v.read? cell = some (.variable false value') := by
  obtain ⟨b', hb', rfl | ⟨_, value', -, rfl⟩⟩ := h.cells cell _ hb
  · exact ⟨value, hb'⟩
  · exact ⟨value', hb'⟩

end Store.Persists

/-! ## Later stores -/

/-- Some cell holds the function. -/
def Store.Declares (store : Store (Binding σ)) (f : Function) : Prop :=
  ∃ cell, store.read? cell = some (.function f)

/-- The second store comes after the first one: what has been bound persists, and the closure of a
new function is new. -/
structure Store.Later (u v : Store (Binding σ)) : Prop extends u.Persists v where
  /-- No frame is closed. -/
  opened : u.frames.size ≤ v.frames.size
  /-- New functions have new closures. -/
  closures : ∀ f, v.Declares f → u.Declares f ∨ u.frames.size ≤ f.closure.frame.index

namespace Store.Later

variable {u v w : Store (Binding σ)}

@[refl]
theorem refl (u : Store (Binding σ)) : u.Later u where
  toPersists := .refl u
  opened := Nat.le_refl _
  closures _ := .inl

theorem trans (h : u.Later v) (h' : v.Later w) : u.Later w where
  toPersists := h.toPersists.trans h'.toPersists
  opened := Nat.le_trans h.opened h'.opened
  closures f hf := by
    rcases h'.closures f hf with hold | hnew
    · exact h.closures f hold
    · exact .inr (Nat.le_trans h.opened hnew)

/-- Functions stay declared. -/
theorem declares (h : u.Later v) {f : Function} (hf : u.Declares f) : v.Declares f :=
  let ⟨cell, hcell⟩ := hf
  ⟨cell, h.read?_eq hcell nofun⟩

/-- A function whose closure has been opened before has been declared before. -/
theorem declares_of_lt (h : u.Later v) {f : Function} (hf : v.Declares f)
    (hopen : f.closure.frame.index < u.frames.size) : u.Declares f :=
  (h.closures f hf).resolve_right (Nat.not_le.2 hopen)

/-- A new frame binds nothing. -/
theorem newChild (u : Store (Binding σ)) (parent : Scope) : u.Later (u.newChild parent).2 where
  bound frame s cell h := by rwa [local?_newChild]
  cells _ b h := ⟨b, h, .refl b⟩
  opened := by simp [Store.newChild]
  closures _ := .inl

/-- A symbol may be bound where it is unbound, to a function if its closure is new. -/
theorem bind (h : u.Later v) {scope : Scope} {s : Symbol} {content : Binding σ}
    (hunbound : v.local? scope.frame s = none)
    (hclosure : ∀ f, content = .function f → u.frames.size ≤ f.closure.frame.index) :
    u.Later (v.bind scope s content).2 where
  bound frame x cell hx := by
    have hv := h.bound frame x cell hx
    rw [local?_bind, if_neg]
    · exact hv
    · rintro ⟨rfl, -, rfl⟩
      rw [hunbound] at hv
      cases hv
  cells cell b hb := by
    obtain ⟨b', hb', hpersists⟩ := h.cells cell b hb
    exact ⟨b', v.read?_bind_of_read? hb', hpersists⟩
  opened := by simpa [Store.bind] using h.opened
  closures f := by
    rintro ⟨cell, hcell⟩
    rcases v.read?_bind hcell with hold | hnew
    · exact h.closures f ⟨cell, hold⟩
    · exact .inr (hclosure f hnew.symm)

/-- A variable may be written. -/
theorem write {cell : CellId} {value : Value} (hcell : u.read? cell = some (.variable false value))
    (value' : Value) : u.Later (u.write cell (.variable false value')) where
  bound _ _ _ := id
  cells other b hb := by
    by_cases hother : other = cell
    · subst hother
      refine ⟨_, u.read?_write_self hb _, .inr ⟨value, value', ?_, rfl⟩⟩
      exact Option.some.inj (hb.symm.trans hcell)
    · exact ⟨b, by rw [u.read?_write_of_ne hother, hb], .refl b⟩
  opened := Nat.le_refl _
  closures f := by
    rintro ⟨other, hother⟩
    rcases u.read?_write hother with hold | hnew
    · exact .inl ⟨other, hold⟩
    · cases hnew

end Store.Later

end Bytewalk
