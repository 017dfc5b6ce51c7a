import Bytewalk.Proofs.Tree.Address
import Bytewalk.Proofs.Tree.Normalization

/-!
# Renaming symbols in trees

A function on symbols renames a tree by its effect on every symbol that occurs in it. Nothing but
the symbols changes: all encodings stay as long as they are, so that every statement keeps the
offset of its address, `offset_rename`.
-/

namespace Bytewalk

variable (r : Symbol → Symbol)

/-! ## Expressions -/

namespace Expr

mutual

/-- The expression with every symbol renamed. -/
def rename : Expr → Expr
  | .literal value => .literal value
  | .variable symbol => .variable (r symbol)
  | .unary op operand => .unary op operand.rename
  | .binary op left right => .binary op left.rename right.rename
  | .group inner => .group inner.rename
  | .call callee args => .call (r callee) (renameAll args)
  | .accessor module inner => .accessor module.rename inner.rename

/-- Expressions with every symbol renamed. -/
def renameAll : List Expr → List Expr
  | [] => []
  | e :: rest => e.rename :: renameAll rest

end

mutual

/-- The symbols that occur in an expression. -/
def symbols : Expr → List Symbol
  | .literal _ => []
  | .variable symbol => [symbol]
  | .unary _ operand => operand.symbols
  | .binary _ left right => left.symbols ++ right.symbols
  | .group inner => inner.symbols
  | .call callee args => callee :: symbolsAll args
  | .accessor module inner => module.symbols ++ inner.symbols

/-- The symbols that occur in expressions. -/
def symbolsAll : List Expr → List Symbol
  | [] => []
  | e :: rest => e.symbols ++ symbolsAll rest

end

/-- The symbols that occur in an optional expression. -/
def symbolsOptional (e : Option Expr) : List Symbol :=
  (e.map symbols).getD []

theorem renameAll_eq_map (es : List Expr) : renameAll r es = es.map (rename r) := by
  induction es with
  | nil => rfl
  | cons e rest ih => rw [renameAll, ih, List.map_cons]

@[simp]
theorem length_renameAll (es : List Expr) : (renameAll r es).length = es.length := by
  rw [renameAll_eq_map, List.length_map]

mutual

/-- The encoding is as long as before. -/
@[simp]
theorem length_encode_rename : ∀ e : Expr, (e.rename r).encode.length = e.encode.length
  | .literal value => rfl
  | .variable symbol => by simp [rename, encode]
  | .unary op operand => by simp [rename, encode, operand.length_encode_rename]
  | .binary op left right => by
    simp [rename, encode, left.length_encode_rename, right.length_encode_rename]
  | .group inner => by simp [rename, encode, inner.length_encode_rename]
  | .call callee args => by simp [rename, encode, length_encodeAll_renameAll args]
  | .accessor module inner => by
    simp [rename, encode, module.length_encode_rename, inner.length_encode_rename]

/-- The encodings of expressions are as long as before. -/
@[simp]
theorem length_encodeAll_renameAll :
    ∀ es : List Expr, (encodeAll (renameAll r es)).length = (encodeAll es).length
  | [] => rfl
  | e :: rest => by
    simp [renameAll, encodeAll, e.length_encode_rename, length_encodeAll_renameAll rest]

end

@[simp]
theorem length_encodeOptional_rename (e : Option Expr) :
    (encodeOptional (e.map (rename r))).length = (encodeOptional e).length := by
  cases e with
  | none => rfl
  | some e => exact length_encode_rename r e

mutual

/-- Literals and symbols change independently of each other. -/
theorem normalize_rename : ∀ e : Expr, (e.rename r).normalize = e.normalize.rename r
  | .literal _ | .variable _ => rfl
  | .unary op operand => by simp [rename, normalize, operand.normalize_rename]
  | .binary op left right => by
    simp [rename, normalize, left.normalize_rename, right.normalize_rename]
  | .group inner => by simp [rename, normalize, inner.normalize_rename]
  | .call callee args => by simp [rename, normalize, normalizeAll_renameAll args]
  | .accessor module inner => by
    simp [rename, normalize, module.normalize_rename, inner.normalize_rename]

theorem normalizeAll_renameAll :
    ∀ es : List Expr, normalizeAll (renameAll r es) = renameAll r (normalizeAll es)
  | [] => rfl
  | e :: rest => by
    simp [renameAll, normalizeAll, e.normalize_rename, normalizeAll_renameAll rest]

end

mutual

/-- Literals hold no symbols. -/
@[simp]
theorem symbols_normalize : ∀ e : Expr, e.normalize.symbols = e.symbols
  | .literal _ | .variable _ => rfl
  | .unary op operand => by simp [normalize, symbols, operand.symbols_normalize]
  | .binary op left right => by
    simp [normalize, symbols, left.symbols_normalize, right.symbols_normalize]
  | .group inner => by simp [normalize, symbols, inner.symbols_normalize]
  | .call callee args => by simp [normalize, symbols, symbolsAll_normalizeAll args]
  | .accessor module inner => by
    simp [normalize, symbols, module.symbols_normalize, inner.symbols_normalize]

@[simp]
theorem symbolsAll_normalizeAll : ∀ es : List Expr, symbolsAll (normalizeAll es) = symbolsAll es
  | [] => rfl
  | e :: rest => by
    simp [normalizeAll, symbolsAll, e.symbols_normalize, symbolsAll_normalizeAll rest]

end

@[simp]
theorem symbolsOptional_normalize (e : Option Expr) :
    symbolsOptional (e.map normalize) = symbolsOptional e := by
  cases e with
  | none => rfl
  | some e => exact symbols_normalize e

mutual

theorem rename_id : ∀ e : Expr, e.rename id = e
  | .literal _ | .variable _ => rfl
  | .unary op operand => by simp [rename, operand.rename_id]
  | .binary op left right => by simp [rename, left.rename_id, right.rename_id]
  | .group inner => by simp [rename, inner.rename_id]
  | .call callee args => by simp [rename, renameAll_id args]
  | .accessor module inner => by simp [rename, module.rename_id, inner.rename_id]

theorem renameAll_id : ∀ es : List Expr, renameAll id es = es
  | [] => rfl
  | e :: rest => by simp [renameAll, e.rename_id, renameAll_id rest]

end

end Expr

/-! ## Statements -/

namespace Stmt

mutual

/-- The statement with every symbol renamed. -/
def rename : Stmt → Stmt
  | .print value => .print (value.rename r)
  | .branch condition positive negative =>
    .branch (condition.rename r) positive.rename (renameOptional negative)
  | .block body => .block (renameAll body)
  | .declare constant symbol initial =>
    .declare constant (r symbol) (initial.map (Expr.rename r))
  | .assign symbol value => .assign (r symbol) (value.rename r)
  | .loop initial condition body step =>
    .loop (renameOptional initial) (condition.rename r) body.rename (renameOptional step)
  | .breakLoop => .breakLoop
  | .function symbol params body => .function (r symbol) (params.map r) body.rename
  | .call callee args => .call (r callee) (Expr.renameAll r args)
  | .returnValue value => .returnValue (value.map (Expr.rename r))
  | .classDecl symbol fields methods =>
    .classDecl (r symbol) (renameAll fields) (renameAll methods)
  | .module symbol fields methods => .module (r symbol) (renameAll fields) (renameAll methods)
  | .importHost symbol target => .importHost (r symbol) (target.map r)

/-- An optional statement with every symbol renamed. -/
def renameOptional : Option Stmt → Option Stmt
  | none => none
  | some s => some s.rename

/-- Statements with every symbol renamed. -/
def renameAll : List Stmt → List Stmt
  | [] => []
  | s :: rest => s.rename :: renameAll rest

end

mutual

/-- The symbols that occur in a statement. -/
def symbols : Stmt → List Symbol
  | .print value => value.symbols
  | .branch condition positive negative =>
    condition.symbols ++ positive.symbols ++ symbolsOptional negative
  | .block body => symbolsAll body
  | .declare _ symbol initial => symbol :: Expr.symbolsOptional initial
  | .assign symbol value => symbol :: value.symbols
  | .loop initial condition body step =>
    symbolsOptional initial ++ condition.symbols ++ body.symbols ++ symbolsOptional step
  | .breakLoop => []
  | .function symbol params body => symbol :: (params ++ body.symbols)
  | .call callee args => callee :: Expr.symbolsAll args
  | .returnValue value => Expr.symbolsOptional value
  | .classDecl symbol fields methods | .module symbol fields methods =>
    symbol :: (symbolsAll fields ++ symbolsAll methods)
  | .importHost symbol target => symbol :: target.toList

/-- The symbols that occur in an optional statement. -/
def symbolsOptional : Option Stmt → List Symbol
  | none => []
  | some s => s.symbols

/-- The symbols that occur in statements. -/
def symbolsAll : List Stmt → List Symbol
  | [] => []
  | s :: rest => s.symbols ++ symbolsAll rest

end

mutual

/-- The symbols under which imports inside a statement bind what they import, where they are not
the imported ones. -/
def aliases : Stmt → List Symbol
  | .branch _ positive negative => positive.aliases ++ aliasesOptional negative
  | .block body => aliasesAll body
  | .loop initial _ body step =>
    aliasesOptional initial ++ body.aliases ++ aliasesOptional step
  | .function _ _ body => body.aliases
  | .classDecl _ fields methods | .module _ fields methods =>
    aliasesAll fields ++ aliasesAll methods
  | .importHost _ target => target.toList
  | _ => []

/-- The aliases inside an optional statement. -/
def aliasesOptional : Option Stmt → List Symbol
  | none => []
  | some s => s.aliases

/-- The aliases inside statements. -/
def aliasesAll : List Stmt → List Symbol
  | [] => []
  | s :: rest => s.aliases ++ aliasesAll rest

end

theorem renameAll_eq_map (body : List Stmt) : renameAll r body = body.map (rename r) := by
  induction body with
  | nil => rfl
  | cons s rest ih => rw [renameAll, ih, List.map_cons]

theorem renameOptional_eq_map (s : Option Stmt) : renameOptional r s = s.map (rename r) := by
  cases s <;> rfl

@[simp]
theorem length_renameAll (body : List Stmt) : (renameAll r body).length = body.length := by
  rw [renameAll_eq_map, List.length_map]

theorem mem_symbolsAll {body : List Stmt} {s : Stmt} (hs : s ∈ body) {x : Symbol}
    (hx : x ∈ s.symbols) : x ∈ symbolsAll body := by
  induction body with
  | nil => cases hs
  | cons first rest ih =>
    rw [symbolsAll, List.mem_append]
    rcases List.mem_cons.1 hs with rfl | hs
    · exact .inl hx
    · exact .inr (ih hs)

mutual

/-- The encoding is as long as before. -/
@[simp]
theorem length_encode_rename : ∀ s : Stmt, (s.rename r).encode.length = s.encode.length
  | .print value => by simp [rename, encode]
  | .branch condition positive negative => by
    simp [rename, encode, positive.length_encode_rename,
      length_encodeOptional_renameOptional negative]
  | .block body => by simp [rename, encode, length_encodeAll_renameAll body]
  | .declare constant symbol initial => by simp [rename, encode]
  | .assign symbol value => by simp [rename, encode]
  | .loop initial condition body step => by
    simp [rename, encode, length_encodeOptional_renameOptional initial, body.length_encode_rename,
      length_encodeOptional_renameOptional step]
  | .breakLoop => rfl
  | .function symbol params body => by
    simp only [rename, encode, List.length_cons, List.length_append, Word.length_flatMap_ofSymbol,
      Word.length_ofSymbol, Word.length_ofCount, List.length_map, body.length_encode_rename]
  | .call callee args => by simp [rename, encode]
  | .returnValue value => by simp [rename, encode]
  | .classDecl symbol fields methods => by
    simp [rename, encode, length_encodeAll_renameAll fields, length_encodeAll_renameAll methods]
  | .module symbol fields methods => by
    simp [rename, encode, length_encodeAll_renameAll fields, length_encodeAll_renameAll methods]
  | .importHost symbol target => by cases target <;> simp [rename, encode]

/-- The encoding of an optional statement is as long as before. -/
@[simp]
theorem length_encodeOptional_renameOptional :
    ∀ s : Option Stmt, (encodeOptional (renameOptional r s)).length = (encodeOptional s).length
  | none => rfl
  | some s => by simp [renameOptional, encodeOptional, s.length_encode_rename]

/-- The encodings of statements are as long as before. -/
@[simp]
theorem length_encodeAll_renameAll :
    ∀ body : List Stmt, (encodeAll (renameAll r body)).length = (encodeAll body).length
  | [] => rfl
  | s :: rest => by
    simp [renameAll, encodeAll, s.length_encode_rename, length_encodeAll_renameAll rest]

end

mutual

/-- Literals and symbols change independently of each other. -/
theorem normalize_rename : ∀ s : Stmt, (s.rename r).normalize = s.normalize.rename r
  | .print value => by simp [rename, normalize, Expr.normalize_rename]
  | .branch condition positive negative => by
    simp [rename, normalize, Expr.normalize_rename, positive.normalize_rename,
      normalizeOptional_renameOptional negative]
  | .block body => by simp [rename, normalize, normalizeAll_renameAll body]
  | .declare constant symbol initial => by
    simp [rename, normalize, Function.comp_def, Expr.normalize_rename]
  | .assign symbol value => by simp [rename, normalize, Expr.normalize_rename]
  | .loop initial condition body step => by
    simp [rename, normalize, Expr.normalize_rename, normalizeOptional_renameOptional initial,
      body.normalize_rename, normalizeOptional_renameOptional step]
  | .breakLoop => rfl
  | .function symbol params body => by simp [rename, normalize, body.normalize_rename]
  | .call callee args => by simp [rename, normalize, Expr.normalizeAll_renameAll]
  | .returnValue value => by
    simp [rename, normalize, Function.comp_def, Expr.normalize_rename]
  | .classDecl symbol fields methods => by
    simp [rename, normalize, normalizeAll_renameAll fields, normalizeAll_renameAll methods]
  | .module symbol fields methods => by
    simp [rename, normalize, normalizeAll_renameAll fields, normalizeAll_renameAll methods]
  | .importHost symbol target => rfl

theorem normalizeOptional_renameOptional : ∀ s : Option Stmt,
    normalizeOptional (renameOptional r s) = renameOptional r (normalizeOptional s)
  | none => rfl
  | some s => by simp [renameOptional, normalizeOptional, s.normalize_rename]

theorem normalizeAll_renameAll :
    ∀ body : List Stmt, normalizeAll (renameAll r body) = renameAll r (normalizeAll body)
  | [] => rfl
  | s :: rest => by
    simp [renameAll, normalizeAll, s.normalize_rename, normalizeAll_renameAll rest]

end

mutual

/-- Literals hold no symbols. -/
@[simp]
theorem symbols_normalize : ∀ s : Stmt, s.normalize.symbols = s.symbols
  | .print value => by simp [normalize, symbols]
  | .branch condition positive negative => by
    simp [normalize, symbols, positive.symbols_normalize,
      symbolsOptional_normalizeOptional negative]
  | .block body => by simp [normalize, symbols, symbolsAll_normalizeAll body]
  | .declare constant symbol initial => by simp [normalize, symbols]
  | .assign symbol value => by simp [normalize, symbols]
  | .loop initial condition body step => by
    simp [normalize, symbols, symbolsOptional_normalizeOptional initial, body.symbols_normalize,
      symbolsOptional_normalizeOptional step]
  | .breakLoop => rfl
  | .function symbol params body => by simp [normalize, symbols, body.symbols_normalize]
  | .call callee args => by simp [normalize, symbols]
  | .returnValue value => by simp [normalize, symbols]
  | .classDecl symbol fields methods => by
    simp [normalize, symbols, symbolsAll_normalizeAll fields, symbolsAll_normalizeAll methods]
  | .module symbol fields methods => by
    simp [normalize, symbols, symbolsAll_normalizeAll fields, symbolsAll_normalizeAll methods]
  | .importHost symbol target => rfl

@[simp]
theorem symbolsOptional_normalizeOptional :
    ∀ s : Option Stmt, symbolsOptional (normalizeOptional s) = symbolsOptional s
  | none => rfl
  | some s => by simp [normalizeOptional, symbolsOptional, s.symbols_normalize]

@[simp]
theorem symbolsAll_normalizeAll :
    ∀ body : List Stmt, symbolsAll (normalizeAll body) = symbolsAll body
  | [] => rfl
  | s :: rest => by
    simp [normalizeAll, symbolsAll, s.symbols_normalize, symbolsAll_normalizeAll rest]

end

mutual

theorem rename_id : ∀ s : Stmt, s.rename id = s
  | .print value => by simp [rename, Expr.rename_id]
  | .branch condition positive negative => by
    simp [rename, Expr.rename_id, positive.rename_id, renameOptional_id negative]
  | .block body => by simp [rename, renameAll_id body]
  | .declare constant symbol initial => by
    simp [rename, funext Expr.rename_id, Option.map_id']
  | .assign symbol value => by simp [rename, Expr.rename_id]
  | .loop initial condition body step => by
    simp [rename, Expr.rename_id, renameOptional_id initial, body.rename_id,
      renameOptional_id step]
  | .breakLoop => rfl
  | .function symbol params body => by simp [rename, body.rename_id]
  | .call callee args => by simp [rename, Expr.renameAll_id]
  | .returnValue value => by simp [rename, funext Expr.rename_id, Option.map_id']
  | .classDecl symbol fields methods => by
    simp [rename, renameAll_id fields, renameAll_id methods]
  | .module symbol fields methods => by simp [rename, renameAll_id fields, renameAll_id methods]
  | .importHost symbol target => by simp [rename]

theorem renameOptional_id : ∀ s : Option Stmt, renameOptional id s = s
  | none => rfl
  | some s => by simp [renameOptional, s.rename_id]

theorem renameAll_id : ∀ body : List Stmt, renameAll id body = body
  | [] => rfl
  | s :: rest => by simp [renameAll, s.rename_id, renameAll_id rest]

end

mutual

/-- The aliases are renamed as all symbols are. -/
theorem aliases_rename : ∀ s : Stmt, (s.rename r).aliases = s.aliases.map r
  | .branch condition positive negative => by
    simp [rename, aliases, positive.aliases_rename, aliasesOptional_renameOptional negative]
  | .block body => by simp [rename, aliases, aliasesAll_renameAll body]
  | .loop initial condition body step => by
    simp [rename, aliases, aliasesOptional_renameOptional initial, body.aliases_rename,
      aliasesOptional_renameOptional step]
  | .function symbol params body => by simp [rename, aliases, body.aliases_rename]
  | .classDecl symbol fields methods => by
    simp [rename, aliases, aliasesAll_renameAll fields, aliasesAll_renameAll methods]
  | .module symbol fields methods => by
    simp [rename, aliases, aliasesAll_renameAll fields, aliasesAll_renameAll methods]
  | .importHost symbol target => by cases target <;> rfl
  | .print _ | .declare .. | .assign .. | .breakLoop | .call .. | .returnValue _ => rfl

theorem aliasesOptional_renameOptional :
    ∀ s : Option Stmt, aliasesOptional (renameOptional r s) = (aliasesOptional s).map r
  | none => rfl
  | some s => by simp [renameOptional, aliasesOptional, s.aliases_rename]

theorem aliasesAll_renameAll :
    ∀ body : List Stmt, aliasesAll (renameAll r body) = (aliasesAll body).map r
  | [] => rfl
  | s :: rest => by
    simp [renameAll, aliasesAll, s.aliases_rename, aliasesAll_renameAll rest]

end

end Stmt

/-! ## Trees that are short enough -/

mutual

/-- A list of arguments is no longer than its encoding. -/
theorem Expr.encodable_of_length : ∀ e : Expr, e.encode.length < 2 ^ 31 → e.Encodable
  | .literal value, _ => .literal value
  | .variable symbol, _ => .variable symbol
  | .unary op operand, h => by
    simp only [encode, List.length_cons] at h
    exact .unary (operand.encodable_of_length (by omega))
  | .binary op left right, h => by
    simp only [encode, List.length_cons, List.length_append] at h
    exact .binary (left.encodable_of_length (by omega)) (right.encodable_of_length (by omega))
  | .group inner, h => by
    simp only [encode, List.length_cons] at h
    exact .group (inner.encodable_of_length (by omega))
  | .call callee args, h => by
    simp only [encode, List.length_cons, List.length_append] at h
    have hargs := length_le_encodeAll args
    exact .call (by omega) (allEncodable_of_length args (by omega))
  | .accessor module inner, h => by
    simp only [encode, List.length_cons, List.length_append] at h
    exact .accessor (module.encodable_of_length (by omega)) (inner.encodable_of_length (by omega))

theorem Expr.allEncodable_of_length :
    ∀ es : List Expr, (encodeAll es).length < 2 ^ 31 → ∀ e ∈ es, e.Encodable
  | [], _ => fun _ he => by cases he
  | e :: rest, h => by
    rw [encodeAll, List.length_append] at h
    exact List.forall_mem_cons.2 ⟨e.encodable_of_length (by omega),
      allEncodable_of_length rest (by omega)⟩

end

theorem Expr.optionalEncodable_of_length {e : Option Expr}
    (h : (encodeOptional e).length < 2 ^ 31) : ∀ x ∈ e, x.Encodable := by
  rintro x rfl
  exact x.encodable_of_length h

mutual

/-- A list inside a statement is no longer than its encoding, so that only the aliases can keep a
short statement from being encoded. -/
theorem Stmt.encodable_of_length : ∀ s : Stmt, s.encode.length < 2 ^ 31 →
    (∀ x ∈ s.aliases, x.IsMarked) → s.Encodable
  | .print value, h, _ => by
    simp only [encode, List.length_cons] at h
    exact .print (value.encodable_of_length (by omega))
  | .branch condition positive negative, h, hmarked => by
    simp only [encode, List.length_cons, List.length_append] at h
    simp only [aliases, List.forall_mem_append] at hmarked
    exact .branch (condition.encodable_of_length (by omega))
      (positive.encodable_of_length (by omega) hmarked.1)
      (optionalEncodable_of_length negative (by omega) hmarked.2)
  | .block body, h, hmarked => by
    simp only [encode, List.length_cons, List.length_append] at h
    have hbody := length_le_encodeAll body
    exact .block (by omega) (allEncodable_of_length body (by omega) hmarked)
  | .declare constant symbol initial, h, _ => by
    simp only [encode, List.length_cons, List.length_append] at h
    exact .declare (Expr.optionalEncodable_of_length (by omega))
  | .assign symbol value, h, _ => by
    simp only [encode, List.length_cons, List.length_append] at h
    exact .assign (value.encodable_of_length (by omega))
  | .loop initial condition body step, h, hmarked => by
    simp only [encode, List.length_cons, List.length_append] at h
    simp only [aliases, List.forall_mem_append] at hmarked
    exact .loop (optionalEncodable_of_length initial (by omega) hmarked.1.1)
      (condition.encodable_of_length (by omega))
      (body.encodable_of_length (by omega) hmarked.1.2)
      (optionalEncodable_of_length step (by omega) hmarked.2)
  | .breakLoop, _, _ => .breakLoop
  | .function symbol params body, h, hmarked => by
    simp only [encode, List.length_cons, List.length_append, Word.length_flatMap_ofSymbol] at h
    exact .function (by omega) (body.encodable_of_length (by omega) hmarked)
  | .call callee args, h, _ => by
    simp only [encode, List.length_cons, List.length_append] at h
    have hargs := Expr.length_le_encodeAll args
    exact .call (by omega) (Expr.allEncodable_of_length args (by omega))
  | .returnValue value, h, _ => by
    simp only [encode, List.length_cons] at h
    exact .returnValue (Expr.optionalEncodable_of_length (by omega))
  | .classDecl symbol fields methods, h, hmarked => by
    simp only [encode, List.length_cons, List.length_append] at h
    simp only [aliases, List.forall_mem_append] at hmarked
    have hfields := length_le_encodeAll fields
    have hmethods := length_le_encodeAll methods
    exact .classDecl (by omega) (allEncodable_of_length fields (by omega) hmarked.1)
      (by omega) (allEncodable_of_length methods (by omega) hmarked.2)
  | .module symbol fields methods, h, hmarked => by
    simp only [encode, List.length_cons, List.length_append] at h
    simp only [aliases, List.forall_mem_append] at hmarked
    have hfields := length_le_encodeAll fields
    have hmethods := length_le_encodeAll methods
    exact .module (by omega) (allEncodable_of_length fields (by omega) hmarked.1)
      (by omega) (allEncodable_of_length methods (by omega) hmarked.2)
  | .importHost symbol target, _, hmarked => by
    refine .importHost ?_
    rintro x rfl
    exact hmarked x List.mem_cons_self

theorem Stmt.optionalEncodable_of_length : ∀ s : Option Stmt,
    (encodeOptional s).length < 2 ^ 31 → (∀ x ∈ aliasesOptional s, x.IsMarked) →
      ∀ x ∈ s, x.Encodable
  | none, _, _ => fun _ hx => by cases hx
  | some s, h, hmarked => fun x hx =>
    Option.mem_some_iff.1 hx ▸ s.encodable_of_length h hmarked

theorem Stmt.allEncodable_of_length : ∀ body : List Stmt, (encodeAll body).length < 2 ^ 31 →
    (∀ x ∈ aliasesAll body, x.IsMarked) → ∀ s ∈ body, s.Encodable
  | [], _, _ => fun _ hs => by cases hs
  | s :: rest, h, hmarked => by
    rw [encodeAll, List.length_append] at h
    rw [aliasesAll, List.forall_mem_append] at hmarked
    exact List.forall_mem_cons.2 ⟨s.encodable_of_length (by omega) hmarked.1,
      allEncodable_of_length rest (by omega) hmarked.2⟩

end

/-! ## Places -/

namespace Tree

variable {s c : Stmt} {edge : Edge}

/-- A renamed statement has the renamed statements inside it. -/
theorem child?_rename (s : Stmt) (edge : Edge) :
    child? (s.rename r) edge = (child? s edge).map (Stmt.rename r) := by
  cases s <;> cases edge <;>
    simp [Stmt.rename, child?, Stmt.renameAll_eq_map, Stmt.renameOptional_eq_map]

/-- A normalized statement has the normalized statements inside it. -/
theorem child?_normalize (s : Stmt) (edge : Edge) :
    child? s.normalize edge = (child? s edge).map Stmt.normalize := by
  cases s <;> cases edge <;>
    simp [Stmt.normalize, child?, Stmt.normalizeAll_eq_map, Stmt.normalizeOptional_eq_map]

/-- What occurs inside occurs in the whole. -/
theorem mem_symbols_of_child? (h : child? s edge = some c) {x : Symbol} (hx : x ∈ c.symbols) :
    x ∈ s.symbols := by
  cases s <;> cases edge <;> simp only [child?, reduceCtorEq, Option.some.injEq] at h
  case branch.positive | loop.body | function.body =>
    subst h
    simp [Stmt.symbols, hx]
  case branch.negative | loop.initial | loop.step =>
    subst h
    simp [Stmt.symbols, Stmt.symbolsOptional, hx]
  case block.item => exact Stmt.mem_symbolsAll (List.mem_of_getElem? h) hx
  case classDecl.field | classDecl.method | module.field | module.method =>
    simp [Stmt.symbols, Stmt.mem_symbolsAll (List.mem_of_getElem? h) hx]

/-- As many bytes as before stand before a statement inside. -/
theorem length_bytesBefore_rename (s : Stmt) (edge : Edge) :
    (bytesBefore (s.rename r) edge).length = (bytesBefore s edge).length := by
  have htake : ∀ (body : List Stmt) (i : Nat),
      (Stmt.encodeAll ((Stmt.renameAll r body).take i)).length =
        (Stmt.encodeAll (body.take i)).length := by
    intro body i
    rw [Stmt.renameAll_eq_map, ← List.map_take, ← Stmt.renameAll_eq_map,
      Stmt.length_encodeAll_renameAll]
  cases s <;> cases edge
  case function.body =>
    simp only [Stmt.rename, bytesBefore, List.length_cons, List.length_append,
      Word.length_flatMap_ofSymbol, Word.length_ofSymbol, Word.length_ofCount, List.length_map]
  all_goals simp [Stmt.rename, bytesBefore, bytesBeforeField, bytesBeforeMethod, htake]

theorem descentOffset_rename (s : Stmt) (path : List Edge) :
    descentOffset (s.rename r) path = descentOffset s path := by
  induction path generalizing s with
  | nil => rfl
  | cons edge path ih =>
    rw [descentOffset, descentOffset, child?_rename]
    cases child? s edge with
    | none => rfl
    | some c => simp only [Option.map_some, length_bytesBefore_rename, ih]

/-- Every address has the offset that it has had before. -/
theorem offset_rename (program : List Stmt) (a : Address) :
    offset (Stmt.renameAll r program) a = offset program a := by
  have hbefore : (Stmt.encodeAll ((Stmt.renameAll r program).take a.index)).length =
      (Stmt.encodeAll (program.take a.index)).length := by
    rw [Stmt.renameAll_eq_map, ← List.map_take, ← Stmt.renameAll_eq_map,
      Stmt.length_encodeAll_renameAll]
  rw [offset, offset, hbefore, Stmt.renameAll_eq_map, List.getElem?_map, Option.map_map]
  cases program[a.index]? with
  | none => rfl
  | some s => simp [descentOffset_rename]

end Tree

end Bytewalk
