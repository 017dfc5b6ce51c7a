/-!
# Arities

How many arguments a function takes.
-/

namespace Bytewalk

/-- How many arguments a function takes. -/
inductive Arity where
  /-- Exactly so many. -/
  | exact (count : Nat)
  /-- From the first to the second number, both included. -/
  | range (least greatest : Nat)
  /-- So many or more. -/
  | variadic (least : Nat)
  deriving DecidableEq, Inhabited

namespace Arity

/-- Whether a call with `count` arguments is allowed. -/
def accepts (arity : Arity) (count : Nat) : Bool :=
  match arity with
  | .exact n => count = n
  | .range least greatest => least ≤ count && count ≤ greatest
  | .variadic least => least ≤ count

/-- Whether the range is not inverted. -/
def isWellFormed : Arity → Bool
  | .range least greatest => least ≤ greatest
  | _ => true

/-- The arity in words. -/
def display : Arity → String
  | .exact n => toString n
  | .range least greatest => toString least ++ "..=" ++ toString greatest
  | .variadic least => toString least ++ " or more"

/-- The arity for inspection. -/
def inspect : Arity → String
  | .exact n => "Exact(" ++ toString n ++ ")"
  | .range least greatest => "Range(" ++ toString least ++ ", " ++ toString greatest ++ ")"
  | .variadic least => "Variadic(" ++ toString least ++ ")"

/-- An arity is well formed exactly when it accepts some number of arguments. -/
theorem isWellFormed_iff (arity : Arity) :
    arity.isWellFormed = true ↔ ∃ count, arity.accepts count = true := by
  cases arity with
  | exact n => exact ⟨fun _ => ⟨n, by simp [accepts]⟩, fun _ => rfl⟩
  | variadic n => exact ⟨fun _ => ⟨n, by simp [accepts]⟩, fun _ => rfl⟩
  | range least greatest =>
    simp only [isWellFormed, accepts, Bool.and_eq_true, decide_eq_true_eq]
    exact ⟨fun h => ⟨least, Nat.le_refl _, h⟩, fun ⟨_, h⟩ => Nat.le_trans h.1 h.2⟩

end Arity

end Bytewalk
