import Bytewalk.Code.Traversal
import Bytewalk.Proofs.Computation

/-!
# Passages

A passage over fields is a walk that reaches their end. This module says field by field where a
passage leads, so that nothing later has to open the walk itself:

- `passes_cons`: a passage over fields goes over the first one and then over the others;
- `passes_node`: a part is its first byte and the fields of its layout;
- `Passes.lt_of_node`: a part is passed over forwards.
-/

namespace Bytewalk

open Decoder

/-- The walk over the fields leads from offset `p` to offset `q`. -/
def Passes (image : Image) (fields : List Field) (p q : Nat) : Prop :=
  Traversal.traverse image fields p = .ok () q

namespace Passes

variable {image : Image} {fields : List Field} {p q r : Nat}

/-- A passage from one offset leads to one offset. -/
theorem unique (hq : Passes image fields p q) (hr : Passes image fields p r) : q = r := by
  rw [Passes] at hq hr
  rw [hq] at hr
  cases hr
  rfl

end Passes

variable {image : Image} {p q : Nat}

/-- Passing over no fields leads nowhere else. -/
@[simp]
theorem passes_nil : Passes image [] p q ↔ q = p := by
  rw [Passes, Traversal.traverse]
  simp [eq_comm]

/-- A passage over two groups of fields goes over the first and then over the second. -/
theorem passes_append {first second : List Field} :
    Passes image (first ++ second) p q ↔
      ∃ r, Passes image first p r ∧ Passes image second r q := by
  simp only [Passes, Traversal.traverse_append]
  cases hfirst : Traversal.traverse image first p with
  | ok a r =>
    refine ⟨fun h => ⟨r, rfl, h⟩, ?_⟩
    rintro ⟨_, h, hsecond⟩
    cases h
    exact hsecond
  | error e r => simp

/-- A passage goes over the first field and then over the others. -/
theorem passes_cons {field : Field} {rest : List Field} :
    Passes image (field :: rest) p q ↔
      ∃ r, Passes image [field] p r ∧ Passes image rest r q := by
  rw [← List.singleton_append, passes_append]

/-! ## Fields -/

/-- Bytes of any content are passed over by their number. -/
@[simp]
theorem passes_raw {width : Nat} : Passes image [.raw width] p q ↔ q = p + width := by
  rw [Passes, Traversal.traverse, ← Passes, passes_nil]

/-- No parts take no bytes. -/
@[simp]
theorem passes_nodes_zero {kind : Node} : Passes image [.nodes kind 0] p q ↔ q = p := by
  rw [Passes, Traversal.traverse, ← Passes, passes_nil]

/-- A part is its first byte and the fields of its layout. -/
theorem passes_node {kind : Node} :
    Passes image [.nodes kind 1] p q ↔
      ∃ fields, kind.layout? (image.byteAt p) = some fields ∧ Passes image fields (p + 1) q := by
  rw [Passes, Traversal.traverse]
  split
  · rename_i fields hlayout
    rw [← Passes, passes_append]
    simp [hlayout]
  · rename_i hlayout
    simp [hlayout, fail_eq]

/-- Several parts are the first one and the others. -/
theorem passes_nodes_succ {kind : Node} {n : Nat} :
    Passes image [.nodes kind (n + 1)] p q ↔
      ∃ r, Passes image [.nodes kind 1] p r ∧ Passes image [.nodes kind n] r q := by
  simp only [passes_node]
  rw [Passes, Traversal.traverse]
  split
  · rename_i fields hlayout
    rw [← Passes, passes_append]
    simp [hlayout]
  · rename_i hlayout
    simp [hlayout, fail_eq]

/-- A part in whose place a zero byte stands is this byte. -/
theorem passes_optional_of_zero {kind : Node} (h : image.byteAt p = 0) :
    Passes image [.optional kind] p q ↔ q = p + 1 := by
  rw [Passes, Traversal.traverse, if_pos h, ← Passes, passes_nil]

/-- A part that is there is passed over like any other. -/
theorem passes_optional_of_ne_zero {kind : Node} (h : image.byteAt p ≠ 0) :
    Passes image [.optional kind] p q ↔ Passes image [.nodes kind 1] p q := by
  rw [Passes, Traversal.traverse, if_neg h, ← Passes]

/-- A counted list is its count and so many parts. -/
theorem passes_counted {kind : Node} :
    Passes image [.counted kind] p q ↔
      ∃ n r, count image 1 p = .ok n r ∧ Passes image [.nodes kind n] r q := by
  rw [Passes, Traversal.traverse]
  split
  · rename_i n r hcount
    refine ⟨fun h => ⟨n, r, hcount, h⟩, ?_⟩
    rintro ⟨_, _, h, hnodes⟩
    rw [hcount] at h
    cases h
    exact hnodes
  · rename_i e r hcount
    simp [hcount]

/-- A symbol in whose place a zero byte stands is this byte. -/
theorem passes_optionalSymbol_of_zero (h : image.byteAt p = 0) :
    Passes image [.optionalSymbol] p q ↔ q = p + 1 := by
  rw [Passes, Traversal.traverse, if_pos h, ← Passes, passes_nil]

/-- A symbol that is there takes four bytes. -/
theorem passes_optionalSymbol_of_ne_zero (h : image.byteAt p ≠ 0) :
    Passes image [.optionalSymbol] p q ↔ q = p + 4 := by
  rw [Passes, Traversal.traverse, if_neg h, ← Passes, passes_nil]

/-- Counted symbols are their count and four bytes for each. -/
theorem passes_symbols :
    Passes image [.symbols] p q ↔ ∃ n r, count image 4 p = .ok n r ∧ q = r + n * 4 := by
  rw [Passes, Traversal.traverse]
  split
  · rename_i n r hcount
    rw [← Passes, passes_nil]
    refine ⟨fun h => ⟨n, r, hcount, h⟩, ?_⟩
    rintro ⟨_, _, h, rfl⟩
    rw [hcount] at h
    cases h
    rfl
  · rename_i e r hcount
    simp [hcount]

/-- A literal is passed over as its decoder does. -/
theorem passes_literal :
    Passes image [.literal] p q ↔ passLiteral image p = .ok () q := by
  rw [Passes, Traversal.traverse]
  split
  · rename_i r hliteral
    rw [← Passes, passes_nil]
    simp [hliteral, eq_comm]
  · rename_i e r hliteral
    simp [hliteral]

/-! ## Direction -/

/-- Passages lead forwards. -/
theorem Passes.le {fields : List Field} (h : Passes image fields p q) : p ≤ q := by
  rw [Passes] at h
  -- The cases are those of the walk; a field that fails ends it.
  fun_induction Traversal.traverse image fields p with
  | case1 p => cases h; exact Nat.le_refl _
  | case2 p width rest ih => exact Nat.le_trans (Nat.le_add_right _ _) (ih h)
  | case3 p kind rest ih => exact ih h
  | case4 p kind n rest fields hlayout ih => exact Nat.le_trans (Nat.le_succ _) (ih h)
  | case5 => simp [fail_eq] at h
  | case6 p kind rest hzero ih => exact Nat.le_trans (Nat.le_succ _) (ih h)
  | case7 p kind rest hzero ih => exact ih h
  | case8 p kind rest n r hcount ih => exact Nat.le_trans (Traversal.le_of_count hcount) (ih h)
  | case9 => cases h
  | case10 p rest hzero ih => exact Nat.le_trans (Nat.le_succ _) (ih h)
  | case11 p rest hzero ih => exact Nat.le_trans (Nat.le_add_right _ _) (ih h)
  | case12 p rest n r hcount ih =>
    exact Nat.le_trans (Nat.le_trans (Traversal.le_of_count hcount) (Nat.le_add_right _ _)) (ih h)
  | case13 => cases h
  | case14 p rest a r hliteral ih =>
    exact Nat.le_trans (Traversal.le_of_passLiteral hliteral) (ih h)
  | case15 => cases h

/-- A part is passed over by at least its first byte. -/
theorem Passes.lt_of_node {kind : Node} (h : Passes image [.nodes kind 1] p q) : p < q := by
  obtain ⟨fields, -, hrest⟩ := passes_node.1 h
  exact hrest.le

/-- A part does not begin with the zero byte. -/
theorem Passes.byteAt_ne_zero {kind : Node} (h : Passes image [.nodes kind 1] p q) :
    image.byteAt p ≠ 0 := by
  intro hzero
  obtain ⟨fields, hlayout, -⟩ := passes_node.1 h
  rw [hzero, Node.layout?_zero] at hlayout
  cases hlayout

/-- A part takes a byte at least, and so there are no more parts than bytes. -/
theorem Passes.add_le_of_nodes {image : Image} {kind : Node} {p q n : Nat}
    (h : Passes image [.nodes kind n] p q) : p + n ≤ q := by
  induction n generalizing p with
  | zero => exact Nat.le_of_eq (passes_nodes_zero.1 h).symm
  | succ n ih =>
    obtain ⟨r, hfirst, hrest⟩ := passes_nodes_succ.1 h
    have hlt := hfirst.lt_of_node
    have hle := ih hrest
    omega

/-! ## Decoders -/

/-- Passing over a statement is a passage over one statement. -/
theorem passStatement_eq_ok : passStatement image p = .ok () q ↔ Passes image [.statement] p q :=
  Iff.rfl

/-- Passing over an expression is a passage over one expression. -/
theorem passExpression_eq_ok :
    passExpression image p = .ok () q ↔ Passes image [.expression] p q :=
  Iff.rfl

/-- Passing over an optional statement is a passage over an optional statement. -/
theorem passOptionalStatement_eq_ok :
    passOptionalStatement image p = .ok () q ↔ Passes image [.optional .statement] p q :=
  Iff.rfl

/-- Finding where statements begin is passing over the first one and finding the others. -/
theorem passMembers_succ_eq_ok {n : Nat} {starts : List Nat} :
    passMembers image (n + 1) p = .ok starts q ↔
      ∃ r rest, passStatement image p = .ok () r ∧ passMembers image n r = .ok rest q ∧
        starts = p :: rest := by
  rw [passMembers]
  constructor
  · intro h
    obtain ⟨_, _, hstart, hbehind⟩ := eq_ok_of_bind h
    cases hstart
    obtain ⟨_, r, hfirst, hothers⟩ := eq_ok_of_bind hbehind
    obtain ⟨others, _, hrest, hlist⟩ := eq_ok_of_bind hothers
    cases hlist
    exact ⟨r, others, hfirst, hrest, rfl⟩
  · rintro ⟨r, rest, hfirst, hrest, rfl⟩
    -- The position is asked for, one statement is passed over, and then the others are.
    exact (bind_of_ok rfl).trans ((bind_of_ok hfirst).trans (bind_of_ok hrest))

/-- Passing over so many statements is what finding where each begins amounts to. -/
private theorem passes_passMembers {n : Nat} :
    Passes image [.nodes .statement n] p q ↔
      ∃ starts, passMembers image n p = .ok starts q := by
  induction n generalizing p with
  | zero =>
    rw [passes_nodes_zero]
    constructor
    · rintro rfl
      exact ⟨[], rfl⟩
    · rintro ⟨starts, h⟩
      cases h
      rfl
  | succ n ih =>
    rw [passes_nodes_succ]
    constructor
    · rintro ⟨r, hfirst, hrest⟩
      obtain ⟨starts, hstarts⟩ := ih.1 hrest
      exact ⟨p :: starts, passMembers_succ_eq_ok.2 ⟨r, starts, hfirst, hstarts, rfl⟩⟩
    · rintro ⟨starts, h⟩
      obtain ⟨r, rest, hfirst, hrest, -⟩ := passMembers_succ_eq_ok.1 h
      exact ⟨r, hfirst, ih.2 ⟨rest, hrest⟩⟩

/-- Passing over a counted list of statements is what finding where each begins amounts to. -/
theorem passes_members :
    Passes image [.counted .statement] p q ↔ ∃ starts, members image p = .ok starts q := by
  rw [passes_counted]
  constructor
  · rintro ⟨n, r, hcount, hnodes⟩
    obtain ⟨starts, hstarts⟩ := passes_passMembers.1 hnodes
    exact ⟨starts, (bind_of_ok hcount).trans hstarts⟩
  · rintro ⟨starts, h⟩
    obtain ⟨n, r, hcount, hstarts⟩ := eq_ok_of_bind h
    exact ⟨n, r, hcount, passes_passMembers.2 ⟨starts, hstarts⟩⟩

end Bytewalk
