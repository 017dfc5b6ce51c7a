import Bytewalk.Error

/-!
# Scopes and cells

A scope is a chain of frames from the innermost outwards. Frames bind symbols to cells, cells hold
content, and the store keeps both. A symbol is bound at most once in a frame and never unbound;
inner frames shadow outer ones.
-/

namespace Bytewalk

/-- The number of a frame. -/
structure FrameId where
  /-- The place of the frame in the store. -/
  index : Nat
  deriving DecidableEq

/-- The number of a cell. -/
structure CellId where
  /-- The place of the cell in the store. -/
  index : Nat
  deriving DecidableEq, Inhabited

/-- A chain of frames that is never empty. -/
structure Scope where
  /-- The innermost frame. -/
  frame : FrameId
  /-- The enclosing frames, innermost first. -/
  outer : List FrameId := []
  deriving DecidableEq

namespace Scope

/-- All frames, innermost first. -/
def frames (scope : Scope) : List FrameId :=
  scope.frame :: scope.outer

/-- The scope around, unless this is a root. -/
def exit? (scope : Scope) : Option Scope :=
  match scope.outer with
  | [] => none
  | frame :: outer => some { frame, outer }

/-- How many scopes are around. -/
def depth (scope : Scope) : Nat :=
  scope.outer.length

/-- One scope further out there is one scope less around. -/
theorem depth_of_exit? {scope parent : Scope} (h : scope.exit? = some parent) :
    scope.depth = parent.depth + 1 := by
  rcases scope with ⟨frame, _ | ⟨first, outer⟩⟩
  · cases h
  · cases h; rfl

end Scope

/-- Frames and cells; `α` is what a cell holds. -/
structure Store (α : Type) where
  /-- What every frame binds. -/
  frames : Array (List (Symbol × CellId)) := #[]
  /-- What every cell holds. -/
  cells : Array α := #[]

namespace Store

variable {α : Type}

/-- The store without frames. -/
def empty : Store α := {}

/-- Opens a frame that no other encloses. -/
def newRoot (store : Store α) : Scope × Store α :=
  ({ frame := ⟨store.frames.size⟩ }, { store with frames := store.frames.push [] })

/-- Opens a frame inside a scope. -/
def newChild (store : Store α) (parent : Scope) : Scope × Store α :=
  ({ frame := ⟨store.frames.size⟩, outer := parent.frames },
    { store with frames := store.frames.push [] })

/-- What a frame binds a symbol to. -/
def local? (store : Store α) (frame : FrameId) (s : Symbol) : Option CellId :=
  (store.frames.getD frame.index []).lookup s

/-- Whether the innermost frame of a scope binds the symbol. -/
def bindsLocally (store : Store α) (scope : Scope) (s : Symbol) : Bool :=
  (store.local? scope.frame s).isSome

/-- The cell that the nearest frame of a scope binds a symbol to. -/
def lookup? (store : Store α) (scope : Scope) (s : Symbol) : Option CellId :=
  scope.frames.findSome? (store.local? · s)

/-- What a cell holds. -/
def read? (store : Store α) (cell : CellId) : Option α :=
  store.cells[cell.index]?

/-- Replaces what a cell holds. -/
def write (store : Store α) (cell : CellId) (content : α) : Store α :=
  { store with cells := store.cells.setIfInBounds cell.index content }

/-- Binds a symbol in the innermost frame of a scope to a new cell. -/
def bind (store : Store α) (scope : Scope) (s : Symbol) (content : α) : CellId × Store α :=
  let cell : CellId := ⟨store.cells.size⟩
  (cell,
    { frames := store.frames.modify scope.frame.index ((s, cell) :: ·)
      cells := store.cells.push content })

/-- Binds a symbol, or fails where the innermost frame binds it already. -/
def add (store : Store α) (scope : Scope) (s : Symbol) (content : α) :
    Except Error (CellId × Store α) :=
  if store.bindsLocally scope s then .error (.of (.duplicateSymbol s.display))
  else .ok (store.bind scope s content)

/-- The cell of a symbol, or a failure where there is none. -/
def find (store : Store α) (scope : Scope) (s : Symbol) : Except Error CellId :=
  match store.lookup? scope s with
  | some cell => .ok cell
  | none => .error (.of (.unknownSymbol s.display))

end Store

end Bytewalk
