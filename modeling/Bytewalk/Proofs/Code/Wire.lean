import Bytewalk.Proofs.Code.PassEncoding

/-!
# The wire grammar

What the bytes of statements and expressions can be, whoever wrote them. Trees of the grammar have
the shapes of program trees and one more, the reserved statement; and where a program tree has an
operator, a flag or a truth value, they have a byte. Such a tree is the bytes of a program tree if
its open bytes mean something and it does not use the reserved form.
-/

namespace Bytewalk

namespace Wire

/-! ## Trees -/

/-- A literal on the wire. -/
inductive Literal where
  /-- `00`. -/
  | null
  /-- `01`, then a byte for the truth value. -/
  | bool (truth : UInt8)
  /-- `02`, then an integer. -/
  | int (value : Int32)
  /-- `03`, then a number. -/
  | float (value : Binary64)
  /-- `04`, then a length in one byte and so many bytes. -/
  | text (bytes : List UInt8)

/-- An expression on the wire. -/
inductive Expr where
  /-- `01`, an operator and its operand. -/
  | unary (op : UInt8) (operand : Expr)
  /-- `02`, an operator and both of its operands. -/
  | binary (op : UInt8) (left right : Expr)
  /-- `03` and the expression in parentheses. -/
  | group (inner : Expr)
  /-- `04` and a literal. -/
  | literal (value : Literal)
  /-- `05` and a symbol. -/
  | variable (symbol : Symbol)
  /-- `06`, the callee and counted arguments. -/
  | call (callee : Symbol) (args : List Expr)
  /-- `07`, the module and the expression inside. -/
  | accessor (module inner : Expr)

/-- A statement on the wire. -/
inductive Stmt where
  /-- `01` and an expression. -/
  | print (value : Expr)
  /-- `02`, a condition, a statement and an optional one. -/
  | branch (condition : Expr) (positive : Stmt) (negative : Option Stmt)
  /-- `03` and counted statements. -/
  | block (body : List Stmt)
  /-- `04`, a flag, a symbol and an optional expression. -/
  | declare (flag : UInt8) (symbol : Symbol) (initial : Option Expr)
  /-- `05`, a symbol and an expression. -/
  | assign (symbol : Symbol) (value : Expr)
  /-- `06`, an optional statement, a condition, a body and an optional step. -/
  | loop (initial : Option Stmt) (condition : Expr) (body : Stmt) (step : Option Stmt)
  /-- `07`. -/
  | breakLoop
  /-- `08`, a symbol, counted parameters and a body. -/
  | function (symbol : Symbol) (params : List Symbol) (body : Stmt)
  /-- `09`, the callee and counted arguments. -/
  | call (callee : Symbol) (args : List Expr)
  /-- `0A` and an optional expression. -/
  | returnValue (value : Option Expr)
  /-- `0B`, a symbol, counted fields and counted methods. -/
  | classDecl (symbol : Symbol) (fields methods : List Stmt)
  /-- `0C`, a symbol, counted fields and counted methods. -/
  | module (symbol : Symbol) (fields methods : List Stmt)
  /-- `0D`, a symbol and an optional alias. -/
  | importHost (symbol : Symbol) (target : Option Symbol)
  /-- `0E`, a symbol, two integers and a statement. -/
  | reserved (symbol : Symbol) (first second : Int32) (body : Stmt)

/-! ## Bytes -/

/-- The bytes of a literal. -/
def Literal.encode : Literal → List UInt8
  | .null => [0x00]
  | .bool truth => [0x01, truth]
  | .int value => 0x02 :: Word.ofInt32 value
  | .float value => 0x03 :: Word.ofBinary64 value
  | .text bytes => 0x04 :: UInt8.ofNat bytes.length :: bytes

namespace Expr

mutual

/-- The bytes of an expression. -/
def encode : Expr → List UInt8
  | .unary op operand => 0x01 :: op :: operand.encode
  | .binary op left right => 0x02 :: op :: (left.encode ++ right.encode)
  | .group inner => 0x03 :: inner.encode
  | .literal value => 0x04 :: value.encode
  | .variable symbol => 0x05 :: Word.ofSymbol symbol
  | .call callee args =>
    0x06 :: (Word.ofSymbol callee ++ (Word.ofCount args.length ++ encodeAll args))
  | .accessor module inner => 0x07 :: (module.encode ++ inner.encode)

/-- The bytes of expressions one behind the other. -/
def encodeAll : List Expr → List UInt8
  | [] => []
  | e :: rest => e.encode ++ encodeAll rest

end

/-- The bytes of an expression, or the zero byte in its place. -/
def encodeOptional : Option Expr → List UInt8
  | none => [0x00]
  | some e => e.encode

theorem encodeAll_eq_flatMap (es : List Expr) : encodeAll es = es.flatMap encode := by
  induction es with
  | nil => rfl
  | cons e rest ih => rw [encodeAll, ih, List.flatMap_cons]

theorem encodeOptional_eq (e : Option Expr) : encodeOptional e = (e.map encode).getD [0] := by
  cases e <;> rfl

end Expr

namespace Stmt

mutual

/-- The bytes of a statement. -/
def encode : Stmt → List UInt8
  | .print value => 0x01 :: value.encode
  | .branch condition positive negative =>
    0x02 :: (condition.encode ++ (positive.encode ++ encodeOptional negative))
  | .block body => 0x03 :: (Word.ofCount body.length ++ encodeAll body)
  | .declare flag symbol initial =>
    0x04 :: flag :: (Word.ofSymbol symbol ++ Expr.encodeOptional initial)
  | .assign symbol value => 0x05 :: (Word.ofSymbol symbol ++ value.encode)
  | .loop initial condition body step =>
    0x06 :: (encodeOptional initial ++ (condition.encode ++ (body.encode ++ encodeOptional step)))
  | .breakLoop => [0x07]
  | .function symbol params body =>
    0x08 :: (Word.ofSymbol symbol ++
      ((Word.ofCount params.length ++ params.flatMap Word.ofSymbol) ++ body.encode))
  | .call callee args =>
    0x09 :: (Word.ofSymbol callee ++ (Word.ofCount args.length ++ Expr.encodeAll args))
  | .returnValue value => 0x0A :: Expr.encodeOptional value
  | .classDecl symbol fields methods =>
    0x0B :: (Word.ofSymbol symbol ++ ((Word.ofCount fields.length ++ encodeAll fields) ++
      (Word.ofCount methods.length ++ encodeAll methods)))
  | .module symbol fields methods =>
    0x0C :: (Word.ofSymbol symbol ++ ((Word.ofCount fields.length ++ encodeAll fields) ++
      (Word.ofCount methods.length ++ encodeAll methods)))
  | .importHost symbol target =>
    0x0D :: (Word.ofSymbol symbol ++ (target.map Word.ofSymbol).getD [0x00])
  | .reserved symbol first second body =>
    0x0E :: (Word.ofSymbol symbol ++ (Word.ofInt32 first ++ (Word.ofInt32 second ++ body.encode)))

/-- The bytes of a statement, or the zero byte in its place. -/
def encodeOptional : Option Stmt → List UInt8
  | none => [0x00]
  | some s => s.encode

/-- The bytes of statements one behind the other. -/
def encodeAll : List Stmt → List UInt8
  | [] => []
  | s :: rest => s.encode ++ encodeAll rest

end

theorem encodeAll_eq_flatMap (ss : List Stmt) : encodeAll ss = ss.flatMap encode := by
  induction ss with
  | nil => rfl
  | cons s rest ih => rw [encodeAll, ih, List.flatMap_cons]

theorem encodeOptional_eq (s : Option Stmt) : encodeOptional s = (s.map encode).getD [0] := by
  cases s <;> rfl

end Stmt

/-! ## Well-formed trees -/

/-- Which bytes may stand where the grammar leaves a byte open, and whether the reserved form is
used. -/
structure Dialect where
  /-- The bytes of unary operators. -/
  unary : UInt8 → Prop
  /-- The bytes of binary operators. -/
  binary : UInt8 → Prop
  /-- The bytes of flags and truth values. -/
  truth : UInt8 → Prop
  /-- Whether the reserved form is used. -/
  reserved : Prop

namespace Dialect

/-- The whole grammar, with any byte where one is open. -/
def whole : Dialect where
  unary _ := True
  binary _ := True
  truth _ := True
  reserved := True

/-- Only operators of the tables, flags and truth values that are zero or one, and no reserved
form. -/
def source : Dialect where
  unary byte := (UnaryOp.ofByte? byte).isSome
  binary byte := (BinaryOp.ofByte? byte).isSome
  truth byte := byte = 0 ∨ byte = 1
  reserved := False

end Dialect

variable {d : Dialect}

/-- A literal of a dialect: its text fits its length byte. -/
inductive Literal.Formed (d : Dialect) : Literal → Prop
  | null : Formed d .null
  | bool {truth : UInt8} : d.truth truth → Formed d (.bool truth)
  | int (value : Int32) : Formed d (.int value)
  | float (value : Binary64) : Formed d (.float value)
  | text {bytes : List UInt8} : bytes.length ≤ 255 → Formed d (.text bytes)

/-- A literal of the grammar is one of a dialect if its truth value is. -/
theorem Literal.Formed.restrict {w : Literal} (h : w.Formed .whole)
    (htruth : ∀ truth, w = .bool truth → d.truth truth) : w.Formed d := by
  cases h with
  | null => exact .null
  | @bool truth => exact .bool (htruth truth rfl)
  | int value => exact .int value
  | float value => exact .float value
  | text hlength => exact .text hlength

/-- An expression of a dialect: its lists fit their counts. -/
inductive Expr.Formed (d : Dialect) : Expr → Prop
  | unary {op : UInt8} {operand : Expr} :
      d.unary op → Formed d operand → Formed d (.unary op operand)
  | binary {op : UInt8} {left right : Expr} :
      d.binary op → Formed d left → Formed d right → Formed d (.binary op left right)
  | group {inner : Expr} : Formed d inner → Formed d (.group inner)
  | literal {value : Literal} : value.Formed d → Formed d (.literal value)
  | variable (symbol : Symbol) : Formed d (.variable symbol)
  | call {callee : Symbol} {args : List Expr} :
      args.length < 2 ^ 31 → (∀ e ∈ args, Formed d e) → Formed d (.call callee args)
  | accessor {module inner : Expr} :
      Formed d module → Formed d inner → Formed d (.accessor module inner)

/-- A statement of a dialect: its lists fit their counts, and an alias does not begin with the byte
that says that there is none. -/
inductive Stmt.Formed (d : Dialect) : Stmt → Prop
  | print {value : Expr} : value.Formed d → Formed d (.print value)
  | branch {condition : Expr} {positive : Stmt} {negative : Option Stmt} :
      condition.Formed d → Formed d positive → (∀ s ∈ negative, Formed d s) →
      Formed d (.branch condition positive negative)
  | block {body : List Stmt} :
      body.length < 2 ^ 31 → (∀ s ∈ body, Formed d s) → Formed d (.block body)
  | declare {flag : UInt8} {symbol : Symbol} {initial : Option Expr} :
      d.truth flag → (∀ e ∈ initial, e.Formed d) → Formed d (.declare flag symbol initial)
  | assign {symbol : Symbol} {value : Expr} : value.Formed d → Formed d (.assign symbol value)
  | loop {initial : Option Stmt} {condition : Expr} {body : Stmt} {step : Option Stmt} :
      (∀ s ∈ initial, Formed d s) → condition.Formed d → Formed d body →
      (∀ s ∈ step, Formed d s) → Formed d (.loop initial condition body step)
  | breakLoop : Formed d .breakLoop
  | function {symbol : Symbol} {params : List Symbol} {body : Stmt} :
      params.length < 2 ^ 31 → Formed d body → Formed d (.function symbol params body)
  | call {callee : Symbol} {args : List Expr} :
      args.length < 2 ^ 31 → (∀ e ∈ args, e.Formed d) → Formed d (.call callee args)
  | returnValue {value : Option Expr} :
      (∀ e ∈ value, e.Formed d) → Formed d (.returnValue value)
  | classDecl {symbol : Symbol} {fields methods : List Stmt} :
      fields.length < 2 ^ 31 → (∀ s ∈ fields, Formed d s) →
      methods.length < 2 ^ 31 → (∀ s ∈ methods, Formed d s) →
      Formed d (.classDecl symbol fields methods)
  | module {symbol : Symbol} {fields methods : List Stmt} :
      fields.length < 2 ^ 31 → (∀ s ∈ fields, Formed d s) →
      methods.length < 2 ^ 31 → (∀ s ∈ methods, Formed d s) →
      Formed d (.module symbol fields methods)
  | importHost {symbol : Symbol} {target : Option Symbol} :
      (∀ s ∈ target, s.IsMarked) → Formed d (.importHost symbol target)
  | reserved {symbol : Symbol} {first second : Int32} {body : Stmt} :
      d.reserved → Formed d body → Formed d (.reserved symbol first second body)

/-! ## Program trees -/

/-- The program trees of a list stand for all its items, if every item has one. -/
theorem exists_trees {α β : Type} {encode : α → List UInt8} {encode' : β → List UInt8}
    {P : α → Prop} {items : List β}
    (h : ∀ y ∈ items, ∃ x, P x ∧ encode x = encode' y) :
    ∃ trees : List α, trees.length = items.length ∧ (∀ x ∈ trees, P x) ∧
      trees.flatMap encode = items.flatMap encode' := by
  -- The items are replaced one by one, so that there are as many trees.
  induction items with
  | nil => exact ⟨[], rfl, by simp, rfl⟩
  | cons y rest ih =>
    obtain ⟨x, hx, hencode⟩ := h y List.mem_cons_self
    obtain ⟨trees, hlength, htrees, hrest⟩ := ih fun z hz => h z (List.mem_cons_of_mem y hz)
    refine ⟨x :: trees, by simp [hlength], ?_, by simp [hencode, hrest]⟩
    rintro z (_ | ⟨_, hz⟩)
    · exact hx
    · exact htrees z hz

/-- An optional item has an optional program tree, if the item has one. -/
theorem exists_optional {α β : Type} {encode : α → List UInt8} {encode' : β → List UInt8}
    {P : α → Prop} {item : Option β} (h : ∀ y ∈ item, ∃ x, P x ∧ encode x = encode' y) :
    ∃ tree : Option α, (∀ x ∈ tree, P x) ∧
      (tree.map encode).getD [0] = (item.map encode').getD [0] := by
  cases item with
  | none => exact ⟨none, by simp, rfl⟩
  | some y =>
    obtain ⟨x, hx, hencode⟩ := h y rfl
    exact ⟨some x, by simpa using hx, hencode⟩

/-- A byte of the table is the byte of an operator. -/
theorem exists_unaryOp {byte : UInt8} (h : Dialect.source.unary byte) :
    ∃ op : UnaryOp, op.byte = byte := by
  obtain ⟨op, hop⟩ := Option.isSome_iff_exists.1 h
  exact ⟨op, UnaryOp.byte_of_ofByte? hop⟩

/-- A byte of the table is the byte of an operator. -/
theorem exists_binaryOp {byte : UInt8} (h : Dialect.source.binary byte) :
    ∃ op : BinaryOp, op.byte = byte := by
  obtain ⟨op, hop⟩ := Option.isSome_iff_exists.1 h
  exact ⟨op, BinaryOp.byte_of_ofByte? hop⟩

/-- A zero or a one is the byte of a truth value. -/
theorem exists_truth {byte : UInt8} (h : Dialect.source.truth byte) :
    ∃ b : Bool, (if b then 1 else 0) = byte := by
  rcases h with rfl | rfl
  · exact ⟨false, rfl⟩
  · exact ⟨true, rfl⟩

/-- A literal of the source dialect is the bytes of a value. -/
theorem Literal.Formed.exists_value {w : Literal} (h : w.Formed .source) :
    ∃ v : Value, v.encode = w.encode := by
  cases h with
  | null => exact ⟨.null, rfl⟩
  | bool htruth =>
    obtain ⟨b, rfl⟩ := exists_truth htruth
    exact ⟨.bool b, rfl⟩
  | int value => exact ⟨.int value, rfl⟩
  | float value => exact ⟨.float value, rfl⟩
  | @text bytes hlength =>
    -- A text of one byte per character keeps all of them.
    have htake : (Text.Latin.encode (Text.Latin.decode bytes)).take maxTextLiteral = bytes := by
      rw [Text.Latin.encode_decode]
      exact List.take_of_length_le hlength
    exact ⟨.text (Text.Latin.decode bytes), by
      simp only [Value.encode, htake]
      rfl⟩

/-- An expression of the source dialect is the bytes of a program tree. -/
theorem Expr.Formed.exists_expr {w : Expr} (h : w.Formed .source) :
    ∃ e : Bytewalk.Expr, e.Encodable ∧ e.encode = w.encode := by
  -- The tree has the same shape, with the operators and values that the open bytes stand for.
  induction h with
  | unary hop _ ih =>
    obtain ⟨op, rfl⟩ := exists_unaryOp hop
    obtain ⟨operand, hoperand, hencode⟩ := ih
    exact ⟨.unary op operand, .unary hoperand, by
      simp [Bytewalk.Expr.encode, encode, hencode, ExpressionOp.byte]⟩
  | binary hop _ _ ihleft ihright =>
    obtain ⟨op, rfl⟩ := exists_binaryOp hop
    obtain ⟨left, hleft, hencode⟩ := ihleft
    obtain ⟨right, hright, hencode'⟩ := ihright
    exact ⟨.binary op left right, .binary hleft hright, by
      simp [Bytewalk.Expr.encode, encode, hencode, hencode', ExpressionOp.byte]⟩
  | group _ ih =>
    obtain ⟨inner, hinner, hencode⟩ := ih
    exact ⟨.group inner, .group hinner, by
      simp [Bytewalk.Expr.encode, encode, hencode, ExpressionOp.byte]⟩
  | literal hvalue =>
    obtain ⟨v, hencode⟩ := hvalue.exists_value
    exact ⟨.literal v, .literal v, by
      simp [Bytewalk.Expr.encode, encode, hencode, ExpressionOp.byte]⟩
  | «variable» symbol => exact ⟨.variable symbol, .variable symbol, rfl⟩
  | @call callee items hlength _ ih =>
    obtain ⟨args, hargs, hall, hencode⟩ := exists_trees ih
    exact ⟨.call callee args, .call (hargs ▸ hlength) hall, by
      simp [Bytewalk.Expr.encode, encode, Bytewalk.Expr.encodeAll_eq_flatMap, encodeAll_eq_flatMap,
        hencode, hargs, ExpressionOp.byte]⟩
  | accessor _ _ ihmodule ihinner =>
    obtain ⟨module, hmodule, hencode⟩ := ihmodule
    obtain ⟨inner, hinner, hencode'⟩ := ihinner
    exact ⟨.accessor module inner, .accessor hmodule hinner, by
      simp [Bytewalk.Expr.encode, encode, hencode, hencode', ExpressionOp.byte]⟩

/-- A statement of the source dialect is the bytes of a program tree. -/
theorem Stmt.Formed.exists_stmt {w : Stmt} (h : w.Formed .source) :
    ∃ s : Bytewalk.Stmt, s.Encodable ∧ s.encode = w.encode := by
  -- A reserved statement has no program tree, but the dialect does not have it.
  induction h with
  | print hvalue =>
    obtain ⟨value, hformed, hencode⟩ := hvalue.exists_expr
    exact ⟨.print value, .print hformed, by
      simp [Bytewalk.Stmt.encode, encode, hencode, StatementOp.byte]⟩
  | branch hcondition _ _ ihpositive ihnegative =>
    obtain ⟨condition, hcondition, hencode⟩ := hcondition.exists_expr
    obtain ⟨positive, hpositive, hencode'⟩ := ihpositive
    obtain ⟨negative, hnegative, hoptional⟩ := exists_optional ihnegative
    exact ⟨.branch condition positive negative, .branch hcondition hpositive hnegative, by
      simp only [Bytewalk.Stmt.encode, encode, hencode, hencode', Bytewalk.Stmt.encodeOptional_eq,
        encodeOptional_eq, hoptional, StatementOp.byte, List.append_assoc]⟩
  | block hlength _ ih =>
    obtain ⟨body, hbody, hall, hencode⟩ := exists_trees ih
    exact ⟨.block body, .block (hbody ▸ hlength) hall, by
      simp only [Bytewalk.Stmt.encode, encode, Bytewalk.Stmt.encodeAll_eq_flatMap,
        encodeAll_eq_flatMap, hencode, hbody, StatementOp.byte]⟩
  | @declare flag symbol _ hflag hinitial =>
    obtain ⟨constant, rfl⟩ := exists_truth hflag
    obtain ⟨initial, hall, hoptional⟩ := exists_optional fun e he => (hinitial e he).exists_expr
    exact ⟨.declare constant symbol initial, .declare hall, by
      simp only [Bytewalk.Stmt.encode, encode, Bytewalk.Expr.encodeOptional_eq,
        Expr.encodeOptional_eq, hoptional, StatementOp.byte]⟩
  | @assign symbol _ hvalue =>
    obtain ⟨value, hformed, hencode⟩ := hvalue.exists_expr
    exact ⟨.assign symbol value, .assign hformed, by
      simp only [Bytewalk.Stmt.encode, encode, hencode, StatementOp.byte]⟩
  | loop _ hcondition _ _ ihinitial ihbody ihstep =>
    obtain ⟨initial, hinitial, hoptional⟩ := exists_optional ihinitial
    obtain ⟨condition, hcondition, hencode⟩ := hcondition.exists_expr
    obtain ⟨body, hbody, hencode'⟩ := ihbody
    obtain ⟨step, hstep, hoptional'⟩ := exists_optional ihstep
    exact ⟨.loop initial condition body step, .loop hinitial hcondition hbody hstep, by
      simp only [Bytewalk.Stmt.encode, encode, hencode, hencode', Bytewalk.Stmt.encodeOptional_eq,
        encodeOptional_eq, hoptional, hoptional', StatementOp.byte, List.append_assoc]⟩
  | breakLoop => exact ⟨.breakLoop, .breakLoop, rfl⟩
  | @function symbol params _ hlength _ ih =>
    obtain ⟨body, hbody, hencode⟩ := ih
    exact ⟨.function symbol params body, .function hlength hbody, by
      simp only [Bytewalk.Stmt.encode, encode, hencode, StatementOp.byte, List.append_assoc]⟩
  | @call callee _ hlength hargs =>
    obtain ⟨args, hsame, hall, hencode⟩ := exists_trees fun e he => (hargs e he).exists_expr
    exact ⟨.call callee args, .call (hsame ▸ hlength) hall, by
      simp only [Bytewalk.Stmt.encode, encode, Bytewalk.Expr.encodeAll_eq_flatMap,
        Expr.encodeAll_eq_flatMap, hencode, hsame, StatementOp.byte, List.append_assoc]⟩
  | returnValue hvalue =>
    obtain ⟨value, hall, hoptional⟩ := exists_optional fun e he => (hvalue e he).exists_expr
    exact ⟨.returnValue value, .returnValue hall, by
      simp only [Bytewalk.Stmt.encode, encode, Bytewalk.Expr.encodeOptional_eq,
        Expr.encodeOptional_eq, hoptional, StatementOp.byte]⟩
  | @classDecl symbol _ _ hfields _ hmethods _ ihfields ihmethods =>
    obtain ⟨fields, hsame, hall, hencode⟩ := exists_trees ihfields
    obtain ⟨methods, hsame', hall', hencode'⟩ := exists_trees ihmethods
    exact ⟨.classDecl symbol fields methods,
      .classDecl (hsame ▸ hfields) hall (hsame' ▸ hmethods) hall', by
      simp only [Bytewalk.Stmt.encode, encode, Bytewalk.Stmt.encodeAll_eq_flatMap,
        encodeAll_eq_flatMap, hencode, hencode', hsame, hsame', StatementOp.byte,
        List.append_assoc]⟩
  | @module symbol _ _ hfields _ hmethods _ ihfields ihmethods =>
    obtain ⟨fields, hsame, hall, hencode⟩ := exists_trees ihfields
    obtain ⟨methods, hsame', hall', hencode'⟩ := exists_trees ihmethods
    exact ⟨.module symbol fields methods,
      .module (hsame ▸ hfields) hall (hsame' ▸ hmethods) hall', by
      simp only [Bytewalk.Stmt.encode, encode, Bytewalk.Stmt.encodeAll_eq_flatMap,
        encodeAll_eq_flatMap, hencode, hencode', hsame, hsame', StatementOp.byte,
        List.append_assoc]⟩
  | @importHost symbol target htarget =>
    exact ⟨.importHost symbol target, .importHost htarget, rfl⟩
  | reserved hreserved => exact hreserved.elim

end Wire

end Bytewalk
