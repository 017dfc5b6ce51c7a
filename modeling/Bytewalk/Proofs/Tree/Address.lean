import Bytewalk.Program.Basic
import Bytewalk.Proofs.Code.PassEncoding

/-!
# Addresses

Where a statement stands in a program: under which number among the statements of the program, and
then edge by edge from a statement to one directly inside it. An address leads to a statement, and
to an offset of the image. `Placed.child` says that an edge leads from a statement whose encoding
stands at its offset to another one.
-/

namespace Bytewalk.Tree

/-! ## Statements inside statements -/

/-- An edge from a statement to one directly inside it. -/
inductive Edge where
  /-- To the statement that a branch executes where its condition holds. -/
  | positive
  /-- To the statement that a branch executes otherwise. -/
  | negative
  /-- To a statement of a block. -/
  | item (index : Nat)
  /-- To the first statement of a loop. -/
  | initial
  /-- To the body of a loop or a function. -/
  | body
  /-- To the step of a loop. -/
  | step
  /-- To a field of a class or a module. -/
  | field (index : Nat)
  /-- To a method of a class or a module. -/
  | method (index : Nat)
  deriving DecidableEq

/-- The statement to which an edge leads, if there is one. -/
def child? : Stmt → Edge → Option Stmt
  | .branch _ positive _, .positive => some positive
  | .branch _ _ negative, .negative => negative
  | .block body, .item i => body[i]?
  | .loop initial _ _ _, .initial => initial
  | .loop _ _ body _, .body => some body
  | .loop _ _ _ step, .step => step
  | .function _ _ body, .body => some body
  | .classDecl _ fields _, .field i | .module _ fields _, .field i => fields[i]?
  | .classDecl _ _ methods, .method i | .module _ _ methods, .method i => methods[i]?
  | _, _ => none

/-- The bytes of a declaration with members before one of its fields. -/
def bytesBeforeField (op : StatementOp) (symbol : Symbol) (fields : List Stmt) (i : Nat) :
    List UInt8 :=
  op.byte :: (Word.ofSymbol symbol ++ Word.ofCount fields.length ++ Stmt.encodeAll (fields.take i))

/-- The bytes of a declaration with members before one of its methods. -/
def bytesBeforeMethod (op : StatementOp) (symbol : Symbol) (fields methods : List Stmt) (i : Nat) :
    List UInt8 :=
  op.byte :: (Word.ofSymbol symbol ++ Word.ofCount fields.length ++ Stmt.encodeAll fields
    ++ Word.ofCount methods.length ++ Stmt.encodeAll (methods.take i))

/-- The bytes of a statement before the statement to which an edge leads. -/
def bytesBefore : Stmt → Edge → List UInt8
  | .branch condition _ _, .positive => StatementOp.branch.byte :: condition.encode
  | .branch condition positive _, .negative =>
    StatementOp.branch.byte :: (condition.encode ++ positive.encode)
  | .block body, .item i =>
    StatementOp.block.byte :: (Word.ofCount body.length ++ Stmt.encodeAll (body.take i))
  | .loop _ _ _ _, .initial => [StatementOp.loop.byte]
  | .loop initial condition _ _, .body =>
    StatementOp.loop.byte :: (Stmt.encodeOptional initial ++ condition.encode)
  | .loop initial condition body _, .step =>
    StatementOp.loop.byte :: (Stmt.encodeOptional initial ++ condition.encode ++ body.encode)
  | .function symbol params _, .body =>
    StatementOp.function.byte ::
      (Word.ofSymbol symbol ++ Word.ofCount params.length ++ params.flatMap Word.ofSymbol)
  | .classDecl symbol fields _, .field i => bytesBeforeField .classDecl symbol fields i
  | .classDecl symbol fields methods, .method i =>
    bytesBeforeMethod .classDecl symbol fields methods i
  | .module symbol fields _, .field i => bytesBeforeField .module symbol fields i
  | .module symbol fields methods, .method i => bytesBeforeMethod .module symbol fields methods i
  | _, _ => []

/-- A statement of a list stands behind those before it. -/
theorem encodeAll_of_getElem? {body : List Stmt} {i : Nat} {s : Stmt}
    (h : body[i]? = some s) :
    ∃ after, Stmt.encodeAll body = Stmt.encodeAll (body.take i) ++ (s.encode ++ after) := by
  induction body generalizing i with
  | nil => cases h
  | cons first rest ih =>
    cases i with
    | zero =>
      cases h
      exact ⟨Stmt.encodeAll rest, rfl⟩
    | succ i =>
      obtain ⟨after, hafter⟩ := ih h
      exact ⟨after, by simp [Stmt.encodeAll, hafter]⟩

/-- The encoding of a statement contains that of every statement inside it. -/
theorem encode_of_child? {s c : Stmt} {edge : Edge} (h : child? s edge = some c) :
    ∃ after, s.encode = bytesBefore s edge ++ (c.encode ++ after) := by
  -- Most edges lead from most statements nowhere; what is left goes statement by statement.
  cases s <;> cases edge <;> simp only [child?, reduceCtorEq, Option.some.injEq] at h
  case branch.positive condition positive negative =>
    subst h
    exact ⟨Stmt.encodeOptional negative, by simp [Stmt.encode, bytesBefore]⟩
  case branch.negative | loop.step =>
    subst h
    exact ⟨[], by simp [Stmt.encode, Stmt.encodeOptional, bytesBefore]⟩
  case loop.initial initial condition body step =>
    subst h
    exact ⟨condition.encode ++ (body.encode ++ Stmt.encodeOptional step),
      by simp [Stmt.encode, Stmt.encodeOptional, bytesBefore]⟩
  case loop.body initial condition body step =>
    subst h
    exact ⟨Stmt.encodeOptional step, by simp [Stmt.encode, bytesBefore]⟩
  case function.body =>
    subst h
    exact ⟨[], by simp [Stmt.encode, bytesBefore]⟩
  case block.item =>
    obtain ⟨after, hafter⟩ := encodeAll_of_getElem? h
    exact ⟨after, by simp [Stmt.encode, bytesBefore, hafter]⟩
  case classDecl.field symbol fields methods i | module.field symbol fields methods i =>
    obtain ⟨after, hafter⟩ := encodeAll_of_getElem? h
    exact ⟨after ++ (Word.ofCount methods.length ++ Stmt.encodeAll methods),
      by simp [Stmt.encode, bytesBefore, bytesBeforeField, hafter]⟩
  case classDecl.method | module.method =>
    obtain ⟨after, hafter⟩ := encodeAll_of_getElem? h
    exact ⟨after, by simp [Stmt.encode, bytesBefore, bytesBeforeMethod, hafter]⟩

/-- Where a statement can be encoded, every statement inside it can. -/
theorem encodable_of_child? {s c : Stmt} {edge : Edge} (hs : s.Encodable)
    (h : child? s edge = some c) : c.Encodable := by
  cases hs <;> cases edge <;> simp only [child?, reduceCtorEq, Option.some.injEq] at h
  case branch.positive _ hpositive _ => exact h ▸ hpositive
  case branch.negative _ _ hnegative => exact hnegative c h
  case block.item _ hbody _ => exact hbody c (List.mem_of_getElem? h)
  case loop.initial hinitial _ _ _ => exact hinitial c h
  case loop.body _ _ hbody _ => exact h ▸ hbody
  case loop.step _ _ _ hstep => exact hstep c h
  case function.body _ hbody => exact h ▸ hbody
  case classDecl.field _ hfields _ _ _ => exact hfields c (List.mem_of_getElem? h)
  case classDecl.method _ _ _ hmethods _ => exact hmethods c (List.mem_of_getElem? h)
  case module.field _ hfields _ _ _ => exact hfields c (List.mem_of_getElem? h)
  case module.method _ _ _ hmethods _ => exact hmethods c (List.mem_of_getElem? h)

/-! ## Addresses -/

/-- The place of a statement in a program. -/
structure Address where
  /-- Its number, or that of the statement around it, among the statements of the program. -/
  index : Nat
  /-- The edges that lead from there to the statement. -/
  path : List Edge := []
  deriving DecidableEq

/-- The address one edge further inside. -/
def Address.child (a : Address) (edge : Edge) : Address :=
  { a with path := a.path ++ [edge] }

/-- The statement to which a path leads from another one. -/
def descend? (s : Stmt) (path : List Edge) : Option Stmt :=
  path.foldlM child? s

/-- How far behind the beginning of a statement that one begins to which a path leads. -/
def descentOffset : Stmt → List Edge → Nat
  | _, [] => 0
  | s, edge :: path =>
    match child? s edge with
    | some c => (bytesBefore s edge).length + descentOffset c path
    | none => 0

/-- The statement of a program at an address. -/
def part? (program : List Stmt) (a : Address) : Option Stmt :=
  program[a.index]?.bind (descend? · a.path)

/-- The offset at which the statement at an address is encoded. -/
def offset (program : List Stmt) (a : Address) : Nat :=
  codeStart + (Stmt.encodeAll (program.take a.index)).length +
    (program[a.index]?.map (descentOffset · a.path)).getD 0

/-- A path leads somewhere if its first edge leads to a statement and the rest leads on from
there. -/
theorem descend?_cons {s c : Stmt} {edge : Edge} {path : List Edge}
    (h : descend? s (edge :: path) = some c) :
    ∃ t, child? s edge = some t ∧ descend? t path = some c := by
  rw [descend?, List.foldlM_cons] at h
  exact Option.bind_eq_some_iff.1 h

theorem descentOffset_cons {s c : Stmt} {edge : Edge} (h : child? s edge = some c)
    (path : List Edge) :
    descentOffset s (edge :: path) = (bytesBefore s edge).length + descentOffset c path := by
  rw [descentOffset, h]

/-- The path one edge further leads to the statement at the end of the edge. -/
private theorem descend?_append {s c : Stmt} {path : List Edge} (h : descend? s path = some c)
    (edge : Edge) : descend? s (path ++ [edge]) = child? c edge := by
  rw [descend?] at h ⊢
  simp [List.foldlM_append, h]

/-- The offset one edge further is that of the statement around and the bytes before the edge. -/
private theorem descentOffset_append {s c d : Stmt} {path : List Edge} {edge : Edge}
    (h : descend? s path = some c) (hedge : child? c edge = some d) :
    descentOffset s (path ++ [edge]) = descentOffset s path + (bytesBefore c edge).length := by
  -- The path is descended from the outermost statement, so that this one changes.
  induction path generalizing s with
  | nil =>
    cases h
    simp [descentOffset, hedge]
  | cons first path ih =>
    obtain ⟨t, hfirst, hpath⟩ := descend?_cons h
    rw [List.cons_append, descentOffset_cons hfirst, descentOffset_cons hfirst, ih hpath,
      Nat.add_assoc]

/-- At the address the program has the statement, which can be encoded, and the image holds its
encoding at the offset of the address. -/
structure Placed (image : Image) (program : List Stmt) (a : Address) (s : Stmt) : Prop where
  /-- The address leads to the statement. -/
  part : part? program a = some s
  /-- The encoding stands at the offset of the address. -/
  holds : image.Holds (offset program a) s.encode
  /-- The statement can be encoded. -/
  encodable : s.Encodable

namespace Placed

variable {image : Image} {program : List Stmt} {a : Address} {s c : Stmt} {edge : Edge}

/-- The offset of a statement inside another one. -/
theorem offset_child (h : Placed image program a s) (hedge : child? s edge = some c) :
    offset program (a.child edge) = offset program a + (bytesBefore s edge).length := by
  obtain ⟨root, hroot, hdescend⟩ := Option.bind_eq_some_iff.1 h.part
  simp only [offset, Address.child, hroot, Option.map_some, Option.getD_some,
    descentOffset_append hdescend hedge]
  omega

/-- What a statement contains is placed where it contains it. -/
theorem child (h : Placed image program a s) (hedge : child? s edge = some c) :
    Placed image program (a.child edge) c := by
  refine ⟨?_, ?_, encodable_of_child? h.encodable hedge⟩
  · obtain ⟨root, hroot, hdescend⟩ := Option.bind_eq_some_iff.1 h.part
    simp only [part?, Address.child, hroot, Option.bind_some, descend?_append hdescend, hedge]
  · -- The encoding around holds the one inside, behind the bytes before the edge.
    obtain ⟨after, hencode⟩ := encode_of_child? hedge
    have hbytes := h.holds
    rw [hencode] at hbytes
    rw [h.offset_child hedge]
    exact hbytes.right.left

/-- The statements of a program are placed where the program is. -/
theorem root (hbytes : image.Holds codeStart (Stmt.encodeAll program))
    (hencodable : ∀ s ∈ program, s.Encodable) {i : Nat} (h : program[i]? = some s) :
    Placed image program { index := i } s := by
  refine ⟨by simp [part?, h, descend?], ?_, hencodable s (List.mem_of_getElem? h)⟩
  obtain ⟨after, hencode⟩ := encodeAll_of_getElem? h
  rw [hencode] at hbytes
  simpa [offset, h, descentOffset] using hbytes.right.left

end Placed

end Bytewalk.Tree
