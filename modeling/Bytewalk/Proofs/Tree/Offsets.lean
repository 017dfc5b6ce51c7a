import Bytewalk.Proofs.Tree.Address

/-!
# Offsets tell addresses

Every statement of a program is encoded inside of the one around it and apart from the others next
to it. So no two statements of a program stand at the same offset: `address_eq_of_offset_eq`.
-/

namespace Bytewalk.Tree

variable {s c c' : Stmt} {edge edge' : Edge}

/-- A statement of a list ends before any that is behind it. -/
theorem length_encodeAll_take_le {body : List Stmt} {i j : Nat} (h : body[i]? = some s)
    (hlt : i < j) :
    (Stmt.encodeAll (body.take i)).length + s.encode.length ≤
      (Stmt.encodeAll (body.take j)).length := by
  have hamong : (body.take j)[i]? = some s := by rwa [List.getElem?_take_of_lt hlt]
  obtain ⟨after, hbytes⟩ := encodeAll_of_getElem? hamong
  rw [List.take_take, Nat.min_eq_left (Nat.le_of_lt hlt)] at hbytes
  rw [hbytes, List.length_append, List.length_append]
  omega

/-- A statement of a list ends before what is behind the list. -/
theorem length_encodeAll_take_le_all {body : List Stmt} {i : Nat} (h : body[i]? = some s) :
    (Stmt.encodeAll (body.take i)).length + s.encode.length ≤ (Stmt.encodeAll body).length := by
  obtain ⟨after, hbytes⟩ := encodeAll_of_getElem? h
  rw [hbytes, List.length_append, List.length_append]
  omega

/-- Two statements of a list do not overlap. -/
theorem apart_encodeAll_take {body : List Stmt} {i j : Nat} (h : body[i]? = some c)
    (h' : body[j]? = some c') (hne : i ≠ j) :
    (Stmt.encodeAll (body.take i)).length + c.encode.length ≤
        (Stmt.encodeAll (body.take j)).length ∨
      (Stmt.encodeAll (body.take j)).length + c'.encode.length ≤
        (Stmt.encodeAll (body.take i)).length := by
  rcases Nat.lt_or_gt_of_ne hne with hlt | hgt
  · exact .inl (length_encodeAll_take_le h hlt)
  · exact .inr (length_encodeAll_take_le h' hgt)

/-! ## Statements inside -/

/-- The opcode stands before every statement inside. -/
theorem length_bytesBefore_pos (h : child? s edge = some c) : 0 < (bytesBefore s edge).length := by
  cases s <;> cases edge <;>
    simp only [child?, reduceCtorEq] at h <;>
    simp [bytesBefore, bytesBeforeField, bytesBeforeMethod]

/-- A statement inside ends before or with the one around it. -/
theorem length_bytesBefore_add_le (h : child? s edge = some c) :
    (bytesBefore s edge).length + c.encode.length ≤ s.encode.length := by
  obtain ⟨after, hbytes⟩ := encode_of_child? h
  rw [hbytes, List.length_append, List.length_append]
  omega

/-- A declaration with members has its fields apart from its methods. -/
theorem apart_of_members {op : StatementOp} {symbol : Symbol} {fields methods : List Stmt}
    {i j : Nat} (h : fields[i]? = some c) :
    (bytesBeforeField op symbol fields i).length + c.encode.length ≤
      (bytesBeforeMethod op symbol fields methods j).length := by
  have hbefore := length_encodeAll_take_le_all h
  simp only [bytesBeforeField, bytesBeforeMethod, List.length_cons, List.length_append]
  omega

/-- Two statements inside of a third one do not overlap. -/
theorem apart_of_child? (h : child? s edge = some c) (h' : child? s edge' = some c')
    (hne : edge ≠ edge') :
    (bytesBefore s edge).length + c.encode.length ≤ (bytesBefore s edge').length ∨
      (bytesBefore s edge').length + c'.encode.length ≤ (bytesBefore s edge).length := by
  -- Only the edges matter that lead somewhere, from a statement that has two of them.
  cases s <;> cases edge <;> simp only [child?, reduceCtorEq, Option.some.injEq] at h <;>
    cases edge' <;> simp only [child?, reduceCtorEq, Option.some.injEq, ne_eq, not_true] at h' hne
  case branch.positive.negative | loop.body.step =>
    subst h
    left
    simp only [bytesBefore, List.length_cons, List.length_append]
    omega
  case branch.negative.positive | loop.step.body =>
    subst h'
    right
    simp only [bytesBefore, List.length_cons, List.length_append]
    omega
  case loop.initial.body | loop.initial.step =>
    subst h
    left
    simp only [bytesBefore, List.length_cons, List.length_append, List.length_nil,
      Stmt.encodeOptional]
    omega
  case loop.body.initial | loop.step.initial =>
    subst h'
    right
    simp only [bytesBefore, List.length_cons, List.length_append, List.length_nil,
      Stmt.encodeOptional]
    omega
  case block.item.item =>
    have hapart := apart_encodeAll_take h h' (by simpa using hne)
    simp only [bytesBefore, List.length_cons, List.length_append]
    omega
  case classDecl.field.field | module.field.field =>
    have hapart := apart_encodeAll_take h h' (by simpa using hne)
    simp only [bytesBefore, bytesBeforeField, List.length_cons, List.length_append]
    omega
  case classDecl.method.method | module.method.method =>
    have hapart := apart_encodeAll_take h h' (by simpa using hne)
    simp only [bytesBefore, bytesBeforeMethod, List.length_cons, List.length_append]
    omega
  case classDecl.field.method | module.field.method => exact .inl (apart_of_members h)
  case classDecl.method.field | module.method.field => exact .inr (apart_of_members h')

/-! ## Statements further inside -/

/-- What a statement contains begins before it ends. -/
theorem descentOffset_lt {path : List Edge} (h : descend? s path = some c) :
    descentOffset s path < s.encode.length := by
  induction path generalizing s with
  | nil => exact s.length_encode_pos
  | cons edge path ih =>
    obtain ⟨t, hedge, hpath⟩ := descend?_cons h
    have hinside := length_bytesBefore_add_le hedge
    have hrest := ih hpath
    rw [descentOffset_cons hedge]
    omega

/-- Two paths lead to different offsets. -/
theorem path_eq_of_descentOffset_eq {path path' : List Edge} (h : descend? s path = some c)
    (h' : descend? s path' = some c') (heq : descentOffset s path = descentOffset s path') :
    path = path' := by
  induction path generalizing s path' with
  | nil =>
    cases path' with
    | nil => rfl
    | cons edge' path' =>
      obtain ⟨t, hedge, -⟩ := descend?_cons h'
      have hpos := length_bytesBefore_pos hedge
      rw [descentOffset_cons hedge, descentOffset] at heq
      omega
  | cons edge path ih =>
    obtain ⟨t, hedge, hpath⟩ := descend?_cons h
    cases path' with
    | nil =>
      have hpos := length_bytesBefore_pos hedge
      rw [descentOffset_cons hedge, descentOffset] at heq
      omega
    | cons edge' path' =>
      obtain ⟨t', hedge', hpath'⟩ := descend?_cons h'
      rw [descentOffset_cons hedge, descentOffset_cons hedge'] at heq
      by_cases hsame : edge = edge'
      · subst hsame
        obtain rfl : t = t' := Option.some.inj (hedge.symm.trans hedge')
        rw [ih hpath hpath' (by omega)]
      · -- The first edges lead to statements apart, and the offsets are inside of these.
        have hapart := apart_of_child? hedge hedge' hsame
        have hinside := descentOffset_lt hpath
        have hinside' := descentOffset_lt hpath'
        omega

/-! ## Programs -/

variable {program : List Stmt} {a a' : Address}

/-- An address leads into one of the statements of the program. -/
theorem offset_of_part? (h : part? program a = some c) :
    ∃ s, program[a.index]? = some s ∧ descend? s a.path = some c ∧
      offset program a =
        codeStart + (Stmt.encodeAll (program.take a.index)).length + descentOffset s a.path := by
  obtain ⟨s, hs, hdescend⟩ := Option.bind_eq_some_iff.1 h
  refine ⟨s, hs, hdescend, ?_⟩
  rw [offset, hs]
  rfl

/-- No two statements of a program stand at the same offset. -/
theorem address_eq_of_offset_eq (h : part? program a = some c) (h' : part? program a' = some c')
    (heq : offset program a = offset program a') : a = a' := by
  obtain ⟨index, path⟩ := a
  obtain ⟨index', path'⟩ := a'
  obtain ⟨s, hs, hpath, hoffset⟩ := offset_of_part? h
  obtain ⟨s', hs', hpath', hoffset'⟩ := offset_of_part? h'
  rw [hoffset, hoffset'] at heq
  dsimp only at hs hs' hpath hpath' heq
  have hinside := descentOffset_lt hpath
  have hinside' := descentOffset_lt hpath'
  by_cases hsame : index = index'
  · subst hsame
    obtain rfl : s = s' := Option.some.inj (hs.symm.trans hs')
    rw [path_eq_of_descentOffset_eq hpath hpath' (by omega)]
  · have hapart := apart_encodeAll_take hs hs' hsame
    omega

end Bytewalk.Tree
