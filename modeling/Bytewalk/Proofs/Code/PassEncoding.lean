import Bytewalk.Proofs.Code.Literal
import Bytewalk.Proofs.Code.Passage

/-!
# Passing over encodings

The encoding of a statement is passed over exactly, whatever stands before and behind it. `Fills`
ties a group of bytes to the fields that they fill; the encoding of a part fills one part because
the encodings of its children fill the fields of its layout.
-/

namespace Bytewalk

open Decoder

/-! ## Trees that can be encoded -/

/-- Every list of arguments is short enough for its count. -/
inductive Expr.Encodable : Expr → Prop
  | literal (value : Value) : Encodable (.literal value)
  | variable (symbol : Symbol) : Encodable (.variable symbol)
  | unary {op : UnaryOp} {operand : Expr} : Encodable operand → Encodable (.unary op operand)
  | binary {op : BinaryOp} {left right : Expr} :
      Encodable left → Encodable right → Encodable (.binary op left right)
  | group {inner : Expr} : Encodable inner → Encodable (.group inner)
  | call {callee : Symbol} {args : List Expr} :
      args.length < 2 ^ 31 → (∀ e ∈ args, Encodable e) → Encodable (.call callee args)
  | accessor {module inner : Expr} :
      Encodable module → Encodable inner → Encodable (.accessor module inner)

/-- The lowest byte of a symbol is not zero, so that its bytes cannot be taken for a missing
symbol. -/
def Symbol.IsMarked (s : Symbol) : Prop :=
  s.id.toUInt32.toNat % 256 ≠ 0

instance (s : Symbol) : Decidable s.IsMarked :=
  inferInstanceAs (Decidable (_ ≠ _))

/-- A marked symbol does not begin with the zero byte. -/
theorem Symbol.IsMarked.byteAt_ne_zero {image : Image} {p : Nat} {s : Symbol} (hs : s.IsMarked)
    (h : image.Holds p (Word.ofSymbol s)) : image.byteAt p ≠ 0 := by
  have hbyte : image.byteAt p = UInt8.ofNat s.id.toUInt32.toNat := h.byteAt
  intro hzero
  have hlow := congrArg UInt8.toNat (hbyte.symm.trans hzero)
  rw [UInt8.toNat_ofNat'] at hlow
  exact hs hlow

/-- Every list is short enough for its count, and every alias is marked. -/
inductive Stmt.Encodable : Stmt → Prop
  | print {value : Expr} : value.Encodable → Encodable (.print value)
  | branch {condition : Expr} {positive : Stmt} {negative : Option Stmt} :
      condition.Encodable → Encodable positive → (∀ s ∈ negative, Encodable s) →
      Encodable (.branch condition positive negative)
  | block {body : List Stmt} :
      body.length < 2 ^ 31 → (∀ s ∈ body, Encodable s) → Encodable (.block body)
  | declare {constant : Bool} {symbol : Symbol} {initial : Option Expr} :
      (∀ e ∈ initial, e.Encodable) → Encodable (.declare constant symbol initial)
  | assign {symbol : Symbol} {value : Expr} :
      value.Encodable → Encodable (.assign symbol value)
  | loop {initial : Option Stmt} {condition : Expr} {body : Stmt} {step : Option Stmt} :
      (∀ s ∈ initial, Encodable s) → condition.Encodable → Encodable body →
      (∀ s ∈ step, Encodable s) → Encodable (.loop initial condition body step)
  | breakLoop : Encodable .breakLoop
  | function {symbol : Symbol} {params : List Symbol} {body : Stmt} :
      params.length < 2 ^ 31 → Encodable body → Encodable (.function symbol params body)
  | call {callee : Symbol} {args : List Expr} :
      args.length < 2 ^ 31 → (∀ e ∈ args, e.Encodable) → Encodable (.call callee args)
  | returnValue {value : Option Expr} :
      (∀ e ∈ value, e.Encodable) → Encodable (.returnValue value)
  | classDecl {symbol : Symbol} {fields methods : List Stmt} :
      fields.length < 2 ^ 31 → (∀ s ∈ fields, Encodable s) →
      methods.length < 2 ^ 31 → (∀ s ∈ methods, Encodable s) →
      Encodable (.classDecl symbol fields methods)
  | module {symbol : Symbol} {fields methods : List Stmt} :
      fields.length < 2 ^ 31 → (∀ s ∈ fields, Encodable s) →
      methods.length < 2 ^ 31 → (∀ s ∈ methods, Encodable s) →
      Encodable (.module symbol fields methods)
  | importHost {symbol : Symbol} {target : Option Symbol} :
      (∀ s ∈ target, s.IsMarked) → Encodable (.importHost symbol target)

/-! ## Bytes that fill fields -/

/-- Wherever the image holds the bytes, a passage over the fields ends exactly behind them. -/
def Fills (image : Image) (fields : List Field) (bytes : List UInt8) : Prop :=
  ∀ p, image.Holds p bytes → Passes image fields p (p + bytes.length)

namespace Fills

variable {image : Image} {kind : Node} {first second fields : List Field} {a b : List UInt8}

/-- No bytes fill no fields. -/
theorem nil : Fills image [] [] :=
  fun _ _ => passes_nil.2 rfl

/-- Fields one behind the other are filled by their bytes one behind the other. -/
theorem append (ha : Fills image first a) (hb : Fills image second b) :
    Fills image (first ++ second) (a ++ b) := by
  intro p h
  rw [List.length_append, ← Nat.add_assoc]
  exact passes_append.2 ⟨_, ha p h.left, hb _ h.right⟩

/-- So many bytes fill a field of their number. -/
theorem raw : Fills image [.raw a.length] a :=
  fun _ _ => passes_raw.2 rfl

/-- A symbol fills the field of a symbol. -/
theorem symbol (s : Symbol) : Fills image [.symbol] (Word.ofSymbol s) := by
  have h : Fills image [.raw (Word.ofSymbol s).length] (Word.ofSymbol s) := raw
  rwa [Word.length_ofSymbol] at h

/-- A literal fills the field of a literal. -/
theorem literal (v : Value) : Fills image [.literal] v.encode :=
  fun _ h => passes_literal.2 (passLiteral_of_holds h)

/-- The byte that begins a part and the bytes of its layout fill a part. -/
theorem node {byte : UInt8} (hlayout : kind.layout? byte = some fields)
    (h : Fills image fields a) : Fills image [.nodes kind 1] (byte :: a) := by
  intro p hbytes
  refine passes_node.2 ⟨fields, ?_, ?_⟩
  · rw [hbytes.byteAt, hlayout]
  · rw [List.length_cons, Nat.add_comm a.length, ← Nat.add_assoc]
    exact h (p + 1) hbytes.tail

/-- The zero byte stands for an optional part. -/
theorem missing : Fills image [.optional kind] [0] :=
  fun _ h => (passes_optional_of_zero h.byteAt).2 rfl

/-- What fills a part fills an optional one, since no part begins with the zero byte. -/
theorem optional (h : Fills image [.nodes kind 1] a) : Fills image [.optional kind] a := by
  intro p hbytes
  have hpart := h p hbytes
  exact (passes_optional_of_ne_zero hpart.byteAt_ne_zero).2 hpart

/-- Parts one behind the other fill as many parts. -/
theorem nodes {α : Type} {encode : α → List UInt8} {items : List α}
    (h : ∀ x ∈ items, Fills image [.nodes kind 1] (encode x)) :
    Fills image [.nodes kind items.length] (items.flatMap encode) := by
  induction items with
  | nil => exact fun _ _ => passes_nodes_zero.2 rfl
  | cons x rest ih =>
    intro p hbytes
    rw [List.flatMap_cons] at hbytes ⊢
    rw [List.length_append, ← Nat.add_assoc]
    have hrest := ih fun y hy => h y (List.mem_cons_of_mem x hy)
    exact passes_nodes_succ.2 ⟨_, h x List.mem_cons_self p hbytes.left, hrest _ hbytes.right⟩

/-- A count and as many parts fill a counted list. -/
theorem counted {n : Nat} (hn : n < 2 ^ 31) (h : Fills image [.nodes kind n] a) :
    Fills image [.counted kind] (Word.ofCount n ++ a) := by
  intro p hbytes
  have hparts := h _ hbytes.right
  rw [Word.length_ofCount] at hparts
  -- A count is accepted only if as many bytes follow; every part takes one at least.
  have hle := hparts.add_le_of_nodes
  refine passes_counted.2 ⟨n, p + 4, count_of_holds hn hbytes (by omega), ?_⟩
  rwa [List.length_append, Word.length_ofCount, ← Nat.add_assoc]

/-- A count and as many symbols fill the field of symbols. -/
theorem symbols {params : List Symbol} (hn : params.length < 2 ^ 31) :
    Fills image [.symbols] (Word.ofCount params.length ++ params.flatMap Word.ofSymbol) := by
  intro p hbytes
  have hlength := Word.length_flatMap_ofSymbol params
  have hcount := count_of_holds hn hbytes (Nat.le_of_eq hlength.symm)
  refine passes_symbols.2 ⟨params.length, p + 4, hcount, ?_⟩
  rw [List.length_append, Word.length_ofCount, hlength, Nat.add_assoc]

/-- A marked symbol, or the zero byte in its place, fills the field of an optional symbol. -/
theorem optionalSymbol {target : Option Symbol} (h : ∀ s ∈ target, s.IsMarked) :
    Fills image [.optionalSymbol] ((target.map Word.ofSymbol).getD [0]) := by
  intro p hbytes
  cases target with
  | none => exact (passes_optionalSymbol_of_zero hbytes.byteAt).2 rfl
  | some s =>
    exact (passes_optionalSymbol_of_ne_zero ((h s rfl).byteAt_ne_zero hbytes)).2 (by simp)

end Fills

/-! ## Encodings -/

/-- Expressions one behind the other are their encodings one behind the other. -/
theorem Expr.encodeAll_eq_flatMap (es : List Expr) : encodeAll es = es.flatMap encode := by
  induction es with
  | nil => rfl
  | cons e rest ih => rw [encodeAll, ih, List.flatMap_cons]

/-- Statements one behind the other are their encodings one behind the other. -/
theorem Stmt.encodeAll_eq_flatMap (ss : List Stmt) : encodeAll ss = ss.flatMap encode := by
  induction ss with
  | nil => rfl
  | cons s rest ih => rw [encodeAll, ih, List.flatMap_cons]

/-- An optional expression is encoded as itself, or as the zero byte. -/
theorem Expr.encodeOptional_eq (e : Option Expr) :
    encodeOptional e = (e.map encode).getD [0] := by
  cases e <;> rfl

/-- An optional statement is encoded as itself, or as the zero byte. -/
theorem Stmt.encodeOptional_eq (s : Option Stmt) :
    encodeOptional s = (s.map encode).getD [0] := by
  cases s <;> rfl

/-- Every expression takes a byte at least. -/
theorem Expr.length_le_encodeAll (es : List Expr) : es.length ≤ (encodeAll es).length := by
  induction es with
  | nil => exact Nat.le_refl 0
  | cons e rest ih =>
    have hpos : 0 < e.encode.length := by cases e <;> simp [encode]
    rw [encodeAll, List.length_append, List.length_cons]
    omega

/-- Every statement takes a byte at least. -/
theorem Stmt.length_encode_pos (s : Stmt) : 0 < s.encode.length := by
  cases s <;> simp [encode]

theorem Stmt.length_le_encodeAll (ss : List Stmt) : ss.length ≤ (encodeAll ss).length := by
  induction ss with
  | nil => exact Nat.le_refl 0
  | cons s rest ih =>
    have hpos := s.length_encode_pos
    rw [encodeAll, List.length_append, List.length_cons]
    omega

variable {image : Image}

/-- The encoding of an expression fills an expression. -/
theorem Expr.Encodable.fills {e : Expr} (h : e.Encodable) :
    Fills image [.expression] e.encode := by
  induction h with
  | literal value => exact .node rfl (.literal value)
  | «variable» symbol => exact .node rfl (.symbol symbol)
  -- The byte of an operator is no opcode: it is raw, and any byte fills it.
  | @unary op _ _ ih => exact .node rfl (Fills.append (.raw (a := [op.byte])) ih)
  | @binary op _ _ _ _ ihleft ihright =>
    exact .node rfl (Fills.append (.raw (a := [op.byte])) (ihleft.append ihright))
  | group _ ih => exact .node rfl ih
  | @call callee args hlength _ ih =>
    rw [encode, encodeAll_eq_flatMap, List.append_assoc]
    exact .node rfl (Fills.append (.symbol callee) (.counted hlength (.nodes ih)))
  | accessor _ _ ihmodule ihinner => exact .node rfl (ihmodule.append ihinner)

/-- The encoding of an optional expression fills an optional expression. -/
theorem Expr.fills_encodeOptional {e : Option Expr} (h : ∀ x ∈ e, x.Encodable) :
    Fills image [.optional .expression] (encodeOptional e) := by
  cases e with
  | none => exact .missing
  | some e => exact .optional (h e rfl).fills

/-- Whatever encodings of statements fill, the encoding of an optional statement does. -/
theorem Stmt.fills_encodeOptional {s : Option Stmt}
    (h : ∀ x ∈ s, Fills image [.statement] x.encode) :
    Fills image [.optional .statement] (encodeOptional s) := by
  cases s with
  | none => exact .missing
  | some s => exact .optional (h s rfl)

/-- The encodings of the members of a class or a module fill the fields behind its first byte. -/
private theorem Stmt.fills_members {symbol : Symbol} {fields methods : List Stmt}
    (hfields : fields.length < 2 ^ 31) (hmethods : methods.length < 2 ^ 31)
    (ihfields : ∀ s ∈ fields, Fills image [.statement] s.encode)
    (ihmethods : ∀ s ∈ methods, Fills image [.statement] s.encode) :
    Fills image [.symbol, .counted .statement, .counted .statement]
      (Word.ofSymbol symbol ++ Word.ofCount fields.length ++ encodeAll fields
        ++ Word.ofCount methods.length ++ encodeAll methods) := by
  have h := Fills.append (.symbol symbol)
    (Fills.append (.counted hfields (.nodes ihfields)) (.counted hmethods (.nodes ihmethods)))
  simp only [encodeAll_eq_flatMap, List.append_assoc]
  exact h

/-- The encoding of a statement fills a statement. -/
theorem Stmt.Encodable.fills {s : Stmt} (h : s.Encodable) :
    Fills image [.statement] s.encode := by
  induction h with
  | print hvalue => exact .node rfl hvalue.fills
  | branch hcondition _ _ ihpositive ihnegative =>
    exact .node rfl ((hcondition.fills.append ihpositive).append (fills_encodeOptional ihnegative))
  | block hlength _ ih =>
    -- The parts of a counted list are its items one behind the other.
    rw [encode, encodeAll_eq_flatMap]
    exact .node rfl (.counted hlength (.nodes ih))
  | @declare constant symbol initial hinitial =>
    have hflag : Fills image [.raw 1] [if constant then 1 else 0] := .raw
    exact .node rfl (hflag.append (Fills.append (.symbol symbol)
      (Expr.fills_encodeOptional hinitial)))
  | @assign symbol value hvalue =>
    exact .node rfl (Fills.append (.symbol symbol) hvalue.fills)
  | loop _ hcondition _ _ ihinitial ihbody ihstep =>
    have hinitial := fills_encodeOptional ihinitial
    have hstep := fills_encodeOptional ihstep
    exact .node rfl (((hinitial.append hcondition.fills).append ihbody).append hstep)
  | breakLoop => exact .node rfl .nil
  | @function symbol params body hlength _ ih =>
    -- The name and the parameters stand before the body, which is a part of its own.
    have hheader : Fills image ([.symbol] ++ [.symbols]) _ :=
      .append (.symbol symbol) (.symbols hlength)
    rw [encode, List.append_assoc (Word.ofSymbol symbol)]
    exact .node rfl (hheader.append ih)
  | @call callee args hlength hargs =>
    rw [encode, Expr.encodeAll_eq_flatMap, List.append_assoc]
    have hitems : Fills image [.nodes .expression args.length] (args.flatMap Expr.encode) :=
      .nodes fun e he => (hargs e he).fills
    exact .node rfl (Fills.append (.symbol callee) (.counted hlength hitems))
  | returnValue hvalue => exact .node rfl (Expr.fills_encodeOptional hvalue)
  | classDecl hfields _ hmethods _ ihfields ihmethods =>
    exact .node rfl (fills_members hfields hmethods ihfields ihmethods)
  | module hfields _ hmethods _ ihfields ihmethods =>
    exact .node rfl (fills_members hfields hmethods ihfields ihmethods)
  | @importHost symbol target htarget =>
    exact .node rfl (Fills.append (.symbol symbol) (.optionalSymbol htarget))

/-- Passing over a statement, or over an expression, consumes exactly its encoding, whatever
stands before and behind it. -/
theorem pass_encode :
    (∀ s : Stmt, s.Encodable → ∀ before after : List UInt8,
      passStatement (before ++ s.encode ++ after).toArray before.length =
        .ok () (before.length + s.encode.length)) ∧
    (∀ e : Expr, e.Encodable → ∀ before after : List UInt8,
      passExpression (before ++ e.encode ++ after).toArray before.length =
        .ok () (before.length + e.encode.length)) := by
  constructor
  · intro s hs before after
    exact hs.fills _ (.of_append before s.encode after)
  · intro e he before after
    exact he.fills _ (.of_append before e.encode after)

/-- A text that is cut when it is encoded, and in which no character has a byte of its own. -/
def Expr.wide : Expr :=
  .literal (.text (String.ofList (List.replicate 300 '€')))

/-- A function that imports under another name, leaves a loop and prints the text. -/
def Stmt.mixed : Stmt :=
  .function ⟨1⟩ [⟨2⟩, ⟨3⟩] (.block [.importHost ⟨4⟩ (some ⟨5⟩),
    .loop none (.variable ⟨2⟩) .breakLoop (some (.print .wide))])

/-- The function and the text are passed over between other bytes. -/
theorem pass_encode_mixed :
    passStatement ([6, 0] ++ Stmt.mixed.encode ++ [7]).toArray 2 =
        .ok () (2 + Stmt.mixed.encode.length) ∧
      passExpression ([3] ++ Expr.wide.encode ++ [0, 9]).toArray 1 =
        .ok () (1 + Expr.wide.encode.length) := by
  have hwide : Expr.wide.Encodable := .literal _
  have himport : (Stmt.importHost ⟨4⟩ (some ⟨5⟩)).Encodable :=
    .importHost fun s hs => by cases hs; decide
  have hloop : (Stmt.loop none (.variable ⟨2⟩) .breakLoop (some (.print .wide))).Encodable :=
    .loop (fun s hs => by cases hs) (.variable ⟨2⟩) .breakLoop
      fun s hs => by cases hs; exact .print hwide
  have hmixed : Stmt.mixed.Encodable := by
    refine .function (by decide) (.block (by decide) fun s hs => ?_)
    simp only [List.mem_cons, List.not_mem_nil, or_false] at hs
    rcases hs with rfl | rfl
    · exact himport
    · exact hloop
  -- Other bytes stand around both, also some that would begin statements of their own.
  have hstatement := pass_encode.1 Stmt.mixed hmixed [6, 0] [7]
  have hexpression := pass_encode.2 Expr.wide hwide [3] [0, 9]
  simp only [List.length_cons, List.length_nil, Nat.zero_add, Nat.reduceAdd]
    at hstatement hexpression
  exact ⟨hstatement, hexpression⟩

end Bytewalk
