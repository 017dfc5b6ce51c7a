/-!
# Spans of character codes

Tables of characters are arrays of inclusive spans of code points.
-/

namespace Bytewalk.Text

/-- An inclusive span of character codes: its first and its last member. -/
abbrev Span := Nat × Nat

namespace Span

/-- Whether the span has `code` as a member. -/
def holds (span : Span) (code : Nat) : Bool :=
  span.1 ≤ code && code ≤ span.2

/-- A span holds exactly the codes from its first to its last member. -/
theorem holds_iff (span : Span) (code : Nat) :
    span.holds code = true ↔ span.1 ≤ code ∧ code ≤ span.2 := by
  simp [holds]

end Span

/-- Whether some span of the table has the character as a member. -/
def memberOf (table : Array Span) (c : Char) : Bool :=
  table.any (·.holds c.toNat)

end Bytewalk.Text
