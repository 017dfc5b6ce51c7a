import Bytewalk.Code.Decoder
import Bytewalk.Code.Layout

/-!
# Traversal

Passing over program parts without executing them. The fields that are still ahead form a
worklist: a part is replaced by the fields of its layout. Every part consumes a byte inside the
image, since the zero bytes past its end begin nothing, and so the walk ends on every image.
-/

namespace Bytewalk

namespace Traversal

open Decoder

/-- How many steps a field takes before a part is reached. -/
def weight : Field → Nat
  | .optional _ | .counted _ => 2
  | _ => 1

/-- How many steps a worklist takes before a part is reached. -/
def totalWeight (fields : List Field) : Nat :=
  fields.foldr (fun field total => weight field + total) 0

/-- A step that goes no further back and leaves less to do makes progress. -/
private theorem lex_of_le {a b c d : Nat} (hfirst : a ≤ b) (hsecond : c < d) :
    Prod.Lex (· < ·) (· < ·) (a, c) (b, d) := by
  rcases Nat.lt_or_eq_of_le hfirst with hlt | heq
  · exact Prod.Lex.left _ _ hlt
  · exact heq ▸ Prod.Lex.right _ hsecond

/-- A count is read forwards. -/
theorem le_of_count {image : Image} {least n p q : Nat}
    (h : count image least p = .ok n q) : p ≤ q := by
  simp only [count, fail] at h
  split at h
  · cases h
  · split at h
    · cases h
    · cases h; omega

/-- A literal is passed over forwards. -/
theorem le_of_passLiteral {image : Image} {p q : Nat}
    (h : passLiteral image p = .ok () q) : p ≤ q := by
  simp only [passLiteral, literalTag, byte, bind, EStateM.bind] at h
  cases htag : LiteralTag.ofByte? (image.byteAt p) with
  | none => simp [htag, fail_eq] at h
  | some tag =>
    simp only [htag] at h
    cases tag with
    | string =>
      change EStateM.bind (textBody image (p + 1) (image.byteAt (p + 1)).toNat) (fun _ => pure ())
        (p + 1 + 1) = .ok () q at h
      rw [EStateM.bind] at h
      cases hbody : textBody image (p + 1) (image.byteAt (p + 1)).toNat (p + 1 + 1) with
      | ok bytes r =>
        rw [hbody] at h
        cases h
        have := eq_add_of_textBody hbody
        omega
      | error e r =>
        rw [hbody] at h
        cases h
    | _ =>
      simp_all [advance, pure, EStateM.pure]
      omega

/-- Passes over the fields from an offset on. -/
def traverse (image : Image) : List Field → Nat → EStateM.Result Error Nat Unit
  | [], p => .ok () p
  | .raw width :: rest, p => traverse image rest (p + width)
  | .nodes _ 0 :: rest, p => traverse image rest p
  | .nodes kind (n + 1) :: rest, p =>
    match _hlayout : kind.layout? (image.byteAt p) with
    | some fields => traverse image (fields ++ .nodes kind n :: rest) (p + 1)
    | none => fail (.unknownOpcode kind.name (image.byteAt p)) (p + 1)
  | .optional kind :: rest, p =>
    if image.byteAt p = 0 then traverse image rest (p + 1)
    else traverse image (.nodes kind 1 :: rest) p
  | .counted kind :: rest, p =>
    match _hcount : count image 1 p with
    | .ok n q => traverse image (.nodes kind n :: rest) q
    | .error e q => .error e q
  | .optionalSymbol :: rest, p =>
    if image.byteAt p = 0 then traverse image rest (p + 1)
    else traverse image rest (p + 4)
  | .symbols :: rest, p =>
    match _hcount : count image 4 p with
    | .ok n q => traverse image rest (q + n * 4)
    | .error e q => .error e q
  | .literal :: rest, p =>
    match _hliteral : passLiteral image p with
    | .ok _ q => traverse image rest q
    | .error e q => .error e q
termination_by fields p => (image.size - p, totalWeight fields)
decreasing_by
  all_goals simp_wf
  -- Everything but a part goes forwards, or stays and has less ahead.
  all_goals try
    refine lex_of_le ?_ ?_
    · first
        | omega
        | exact Nat.sub_le_sub_left (le_of_count _hcount) _
        | exact Nat.sub_le_sub_left (Nat.le_add_right_of_le (le_of_count _hcount)) _
        | exact Nat.sub_le_sub_left (le_of_passLiteral _hliteral) _
    · simp [totalWeight, weight]
  -- A part begins inside the image, whatever its fields weigh.
  have hne : image.byteAt p ≠ 0 := by
    intro hzero
    rw [hzero, Node.layout?_zero] at _hlayout
    cases _hlayout
  have := Image.lt_size_of_byteAt_ne_zero hne
  exact Prod.Lex.left _ _ (by omega)

/-- Passing over two groups of fields is passing over the first and then over the second. -/
theorem traverse_append (image : Image) (first second : List Field) (p : Nat) :
    traverse image (first ++ second) p =
      match traverse image first p with
      | .ok _ q => traverse image second q
      | .error e q => .error e q := by
  fun_induction traverse image first p with
  | case4 p kind n rest fields hlayout ih =>
    rw [List.cons_append, traverse]
    split
    · rename_i found hfound
      rw [hlayout] at hfound
      cases hfound
      rw [← ih]
      simp
    · simp_all
  | case5 =>
    rw [List.cons_append, traverse]
    split
    · simp_all
    · rfl
  | case8 | case9 | case12 | case13 | case14 | case15 =>
    rw [List.cons_append, traverse]
    split <;> simp_all
  | _ => simp_all [traverse]

end Traversal

namespace Decoder

variable (image : Image)

/-- Passes over one statement. -/
def passStatement : Decoder Unit :=
  Traversal.traverse image [.statement]

/-- Passes over one expression. -/
def passExpression : Decoder Unit :=
  Traversal.traverse image [.expression]

/-- Passes over a statement, or over the zero byte in its place. -/
def passOptionalStatement : Decoder Unit :=
  Traversal.traverse image [.optional .statement]

/-- Passes over so many statements and collects where each begins. -/
def passMembers : Nat → Decoder (List Nat)
  | 0 => return []
  | n + 1 => do
    let start ← get
    passStatement image
    return start :: (← passMembers n)

/-- Passes over a counted list of statements and collects where each begins. -/
def members : Decoder (List Nat) := do
  passMembers image (← count image 1)

end Decoder

end Bytewalk
