import Bytewalk.Proofs.Code.Literal

/-!
# Normalization

The tree that an image holds of a program: its encoding is the same, but its texts are those that
literals give back.
-/

namespace Bytewalk

/-! ## Expressions -/

namespace Expr

mutual

/-- The expression with every literal replaced by what is read of it. -/
def normalize : Expr → Expr
  | .literal value => .literal value.normalize
  | .variable symbol => .variable symbol
  | .unary op operand => .unary op operand.normalize
  | .binary op left right => .binary op left.normalize right.normalize
  | .group inner => .group inner.normalize
  | .call callee args => .call callee (normalizeAll args)
  | .accessor module inner => .accessor module.normalize inner.normalize

/-- Expressions with every literal replaced by what is read of it. -/
def normalizeAll : List Expr → List Expr
  | [] => []
  | e :: rest => e.normalize :: normalizeAll rest

end

theorem normalizeAll_eq_map (es : List Expr) : normalizeAll es = es.map normalize := by
  induction es with
  | nil => rfl
  | cons e rest ih => rw [normalizeAll, ih, List.map_cons]

/-- As many expressions as before. -/
@[simp]
theorem length_normalizeAll (es : List Expr) : (normalizeAll es).length = es.length := by
  rw [normalizeAll_eq_map, List.length_map]

mutual

/-- Normalizing an expression does not change its encoding. -/
@[simp]
theorem encode_normalize : ∀ e : Expr, e.normalize.encode = e.encode
  | .literal value => by simp [normalize, encode]
  | .variable symbol => rfl
  | .unary op operand => by simp [normalize, encode, operand.encode_normalize]
  | .binary op left right => by
    simp [normalize, encode, left.encode_normalize, right.encode_normalize]
  | .group inner => by simp [normalize, encode, inner.encode_normalize]
  | .call callee args => by simp [normalize, encode, encodeAll_normalizeAll args]
  | .accessor module inner => by
    simp [normalize, encode, module.encode_normalize, inner.encode_normalize]

/-- Normalizing expressions does not change their encoding. -/
@[simp]
theorem encodeAll_normalizeAll : ∀ es : List Expr, encodeAll (normalizeAll es) = encodeAll es
  | [] => rfl
  | e :: rest => by
    simp [normalizeAll, encodeAll, e.encode_normalize, encodeAll_normalizeAll rest]

end

/-- Normalizing an optional expression does not change its encoding. -/
@[simp]
theorem encodeOptional_map_normalize (e : Option Expr) :
    encodeOptional (e.map normalize) = encodeOptional e := by
  cases e with
  | none => rfl
  | some e => exact e.encode_normalize

end Expr

/-! ## Statements -/

namespace Stmt

mutual

/-- The statement with every literal replaced by what is read of it. -/
def normalize : Stmt → Stmt
  | .print value => .print value.normalize
  | .branch condition positive negative =>
    .branch condition.normalize positive.normalize (normalizeOptional negative)
  | .block body => .block (normalizeAll body)
  | .declare constant symbol initial =>
    .declare constant symbol (initial.map Expr.normalize)
  | .assign symbol value => .assign symbol value.normalize
  | .loop initial condition body step =>
    .loop (normalizeOptional initial) condition.normalize body.normalize (normalizeOptional step)
  | .breakLoop => .breakLoop
  | .function symbol params body => .function symbol params body.normalize
  | .call callee args => .call callee (Expr.normalizeAll args)
  | .returnValue value => .returnValue (value.map Expr.normalize)
  | .classDecl symbol fields methods =>
    .classDecl symbol (normalizeAll fields) (normalizeAll methods)
  | .module symbol fields methods => .module symbol (normalizeAll fields) (normalizeAll methods)
  | .importHost symbol target => .importHost symbol target

/-- An optional statement with every literal replaced by what is read of it. -/
def normalizeOptional : Option Stmt → Option Stmt
  | none => none
  | some s => some s.normalize

/-- Statements with every literal replaced by what is read of it. -/
def normalizeAll : List Stmt → List Stmt
  | [] => []
  | s :: rest => s.normalize :: normalizeAll rest

end

theorem normalizeAll_eq_map (body : List Stmt) : normalizeAll body = body.map normalize := by
  induction body with
  | nil => rfl
  | cons s rest ih => rw [normalizeAll, ih, List.map_cons]

theorem normalizeOptional_eq_map (s : Option Stmt) : normalizeOptional s = s.map normalize := by
  cases s <;> rfl

/-- As many statements as before. -/
@[simp]
theorem length_normalizeAll (body : List Stmt) : (normalizeAll body).length = body.length := by
  rw [normalizeAll_eq_map, List.length_map]

mutual

/-- Normalizing a statement does not change its encoding. -/
@[simp]
theorem encode_normalize : ∀ s : Stmt, s.normalize.encode = s.encode
  | .print value => by simp [normalize, encode]
  | .branch condition positive negative => by
    simp [normalize, encode, positive.encode_normalize, encodeOptional_normalizeOptional negative]
  | .block body => by simp [normalize, encode, encodeAll_normalizeAll body]
  | .declare constant symbol initial => by simp [normalize, encode]
  | .assign symbol value => by simp [normalize, encode]
  | .loop initial condition body step => by
    simp [normalize, encode, encodeOptional_normalizeOptional initial, body.encode_normalize,
      encodeOptional_normalizeOptional step]
  | .breakLoop => rfl
  | .function symbol params body => by simp [normalize, encode, body.encode_normalize]
  | .call callee args => by simp [normalize, encode]
  | .returnValue value => by simp [normalize, encode]
  | .classDecl symbol fields methods => by
    simp [normalize, encode, encodeAll_normalizeAll fields, encodeAll_normalizeAll methods]
  | .module symbol fields methods => by
    simp [normalize, encode, encodeAll_normalizeAll fields, encodeAll_normalizeAll methods]
  | .importHost symbol target => rfl

/-- Normalizing an optional statement does not change its encoding. -/
@[simp]
theorem encodeOptional_normalizeOptional :
    ∀ s : Option Stmt, encodeOptional (normalizeOptional s) = encodeOptional s
  | none => rfl
  | some s => by simp [normalizeOptional, encodeOptional, s.encode_normalize]

/-- Normalizing statements does not change their encoding. -/
@[simp]
theorem encodeAll_normalizeAll : ∀ body : List Stmt, encodeAll (normalizeAll body) = encodeAll body
  | [] => rfl
  | s :: rest => by
    simp [normalizeAll, encodeAll, s.encode_normalize, encodeAll_normalizeAll rest]

end

end Stmt

end Bytewalk
