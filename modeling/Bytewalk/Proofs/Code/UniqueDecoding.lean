import Bytewalk.Proofs.Code.PassEncoding
import Bytewalk.Proofs.Program.Assembly
import Bytewalk.Proofs.Tree.Normalization

/-!
# Unique decoding

Encodings tell trees apart: where two encodings begin the same bytes, the trees are the same up to
what literals lose, and the same bytes follow. `Tells` says this of two items, and its rules peel
one field after the other off the front of the bytes.
-/

namespace Bytewalk

/-! ## Telling items apart -/

/-- The encodings tell `a` and `b` apart up to `f`: where both begin the same bytes, `f` does not
distinguish `a` from `b`, and the same bytes follow. -/
def Tells {α β : Type} (encode : α → List UInt8) (f : α → β) (a b : α) : Prop :=
  ∀ r r' : List UInt8, encode a ++ r = encode b ++ r' → f a = f b ∧ r = r'

namespace Tells

variable {α β : Type} {encode : α → List UInt8} {f : α → β}

/-- Encodings of one length tell apart what they do not encode alike. -/
theorem of_length {a b : α} (hlength : (encode a).length = (encode b).length)
    (h : encode a = encode b → f a = f b) : Tells encode f a b := by
  intro r r' heq
  obtain ⟨hencode, hrest⟩ := List.append_inj heq hlength
  exact ⟨h hencode, hrest⟩

/-- Where items are told apart, lists of as many items are. -/
theorem all {as bs : List α} (hlength : as.length = bs.length)
    (h : ∀ a ∈ as, ∀ b ∈ bs, Tells encode f a b) :
    Tells (List.flatMap encode) (List.map f) as bs := by
  induction as generalizing bs with
  | nil =>
    obtain rfl := List.length_eq_zero_iff.1 hlength.symm
    exact fun r r' heq => ⟨rfl, heq⟩
  | cons a as ih =>
    obtain ⟨b, bs, rfl⟩ := List.exists_cons_of_length_eq_add_one hlength.symm
    intro r r' heq
    simp only [List.flatMap_cons, List.append_assoc] at heq
    -- Behind the first items the same bytes follow, and they begin with the other items.
    obtain ⟨hfirst, hothers⟩ := h a List.mem_cons_self b List.mem_cons_self _ _ heq
    obtain ⟨hrest, hbehind⟩ := ih (Nat.succ.inj hlength)
      (fun x hx y hy => h x (List.mem_cons_of_mem a hx) y (List.mem_cons_of_mem b hy)) _ _ hothers
    exact ⟨by simp [hfirst, hrest], hbehind⟩

/-- Lists that fill all bytes are told apart whatever their lengths, if every item takes a byte. -/
theorem eq_of_flatMap_eq {as bs : List α} (hpos : ∀ a, encode a ≠ [])
    (h : ∀ a ∈ as, ∀ b ∈ bs, Tells encode f a b) (heq : as.flatMap encode = bs.flatMap encode) :
    as.map f = bs.map f := by
  induction as generalizing bs with
  | nil =>
    cases bs with
    | nil => rfl
    | cons b bs =>
      -- One item more would take a byte that is not there.
      rw [List.flatMap_nil, List.flatMap_cons] at heq
      exact absurd (List.append_eq_nil_iff.1 heq.symm).1 (hpos b)
  | cons a as ih =>
    cases bs with
    | nil =>
      rw [List.flatMap_nil, List.flatMap_cons] at heq
      exact absurd (List.append_eq_nil_iff.1 heq).1 (hpos a)
    | cons b bs =>
      obtain ⟨hfirst, hothers⟩ := h a List.mem_cons_self b List.mem_cons_self _ _ heq
      have hrest := ih (fun x hx y hy =>
        h x (List.mem_cons_of_mem a hx) y (List.mem_cons_of_mem b hy)) hothers
      simp [hfirst, hrest]

/-- A missing item is told apart from one that does not begin with the zero byte. -/
theorem optional {a b : Option α} (hmarked : ∀ x ∈ a, (encode x).headD 0 ≠ 0)
    (hmarked' : ∀ y ∈ b, (encode y).headD 0 ≠ 0) (h : ∀ x ∈ a, ∀ y ∈ b, Tells encode f x y) :
    Tells (fun o => (o.map encode).getD [0]) (Option.map f) a b := by
  -- The zero byte of a missing item is not the first byte of one that is there.
  have hclash : ∀ {x : α} {r r' : List UInt8}, (encode x).headD 0 ≠ 0 →
      encode x ++ r ≠ 0 :: r' := by
    intro x r r' hx heq
    cases hencode : encode x with
    | nil => exact hx (by simp [hencode])
    | cons first rest =>
      rw [hencode, List.cons_append] at heq
      exact hx (by simp [hencode, (List.cons.inj heq).1])
  intro r r' heq
  cases a with
  | none =>
    cases b with
    | none => exact ⟨rfl, (List.cons.inj heq).2⟩
    | some y => exact absurd heq.symm (hclash (hmarked' y rfl))
  | some x =>
    cases b with
    | none => exact absurd heq (hclash (hmarked x rfl))
    | some y =>
      obtain ⟨hitem, hrest⟩ := h x rfl y rfl _ _ heq
      exact ⟨congrArg some hitem, hrest⟩

end Tells

/-! ## Fields -/

namespace Word

/-- Integers have different bytes. -/
theorem ofInt32_injective : Function.Injective ofInt32 := by
  intro a b h
  have ha : Image.Holds (ofInt32 a).toArray 0 (ofInt32 a) := List.prefix_rfl
  -- Both are read back from the same bytes.
  have hb : Image.Holds (ofInt32 a).toArray 0 (ofInt32 b) := h ▸ ha
  exact ha.int32At.symm.trans hb.int32At

/-- Symbols are told apart. -/
theorem tells_symbol (s t : Symbol) : Tells ofSymbol id s t := by
  refine .of_length (by simp) fun h => ?_
  have hid : s.id = t.id := ofInt32_injective h
  exact congrArg Symbol.mk hid

/-- Counts are told apart as far as 32 bits hold them. -/
theorem tells_count {n k : Nat} (hn : n < 2 ^ 32) (hk : k < 2 ^ 32) : Tells ofCount id n k := by
  refine .of_length (by simp) fun h => ?_
  have hword := congrArg ofBytes h
  rw [ofCount, ofCount, ofBytes_toBytes, ofBytes_toBytes, Nat.mod_eq_of_lt (by omega),
    Nat.mod_eq_of_lt (by omega)] at hword
  exact hword

end Word

/-- Where items are told apart, lists behind their counts are. -/
theorem Tells.counted {α β : Type} {encode : α → List UInt8} {f : α → β} {as bs : List α}
    (has : as.length < 2 ^ 31) (hbs : bs.length < 2 ^ 31)
    (h : ∀ a ∈ as, ∀ b ∈ bs, Tells encode f a b) :
    Tells (fun xs => Word.ofCount xs.length ++ xs.flatMap encode) (List.map f) as bs := by
  intro r r' heq
  simp only [List.append_assoc] at heq
  obtain ⟨hlength, heq⟩ := Word.tells_count (by omega) (by omega) _ _ heq
  exact Tells.all hlength h _ _ heq

/-- Literals are told apart up to what they lose. -/
theorem Value.tells (v w : Value) : Tells Value.encode Value.normalize v w := by
  intro r r' heq
  have hv : Image.Holds (v.encode ++ r).toArray 0 v.encode := ⟨r, by simp⟩
  have hw : Image.Holds (v.encode ++ r).toArray 0 w.encode := ⟨r', by simp [heq]⟩
  -- Reading the same bytes gives one value and one end.
  have hread := (Decoder.literal_of_holds hv).symm.trans (Decoder.literal_of_holds hw)
  simp only [Nat.zero_add, EStateM.Result.ok.injEq] at hread
  exact ⟨hread.1, (List.append_inj heq hread.2).2⟩

/-- A marked symbol does not begin with the zero byte. -/
theorem Symbol.IsMarked.headD_ofSymbol_ne_zero {s : Symbol} (hs : s.IsMarked) :
    (Word.ofSymbol s).headD 0 ≠ 0 := by
  have h : Image.Holds (Word.ofSymbol s).toArray 0 (Word.ofSymbol s) := List.prefix_rfl
  have hbyte : Image.byteAt (Word.ofSymbol s).toArray 0 = (Word.ofSymbol s).headD 0 := h.byteAt
  exact hbyte ▸ hs.byteAt_ne_zero h

/-- Operators have different bytes. -/
theorem UnaryOp.byte_injective : Function.Injective UnaryOp.byte := by
  intro a b h
  have := congrArg UnaryOp.ofByte? h
  simpa using this

/-- Operators have different bytes. -/
theorem BinaryOp.byte_injective : Function.Injective BinaryOp.byte := by
  intro a b h
  have := congrArg BinaryOp.ofByte? h
  simpa using this

/-! ## Trees -/

namespace Expr

/-- No expression begins with the zero byte. -/
theorem headD_encode_ne_zero (e : Expr) : e.encode.headD 0 ≠ 0 := by
  cases e <;> simp [encode, ExpressionOp.byte]

/-- Expressions are told apart by their encodings. -/
theorem Encodable.tells {e₁ : Expr} (h₁ : e₁.Encodable) :
    ∀ {e₂ : Expr}, e₂.Encodable → Tells encode normalize e₁ e₂ := by
  -- The first byte leaves only one form for the second expression; then the fields are peeled off
  -- in their order, and the induction serves those that are expressions.
  induction h₁ with
  | literal v =>
    intro e₂ h₂ r r' heq
    cases h₂ with
    | literal w =>
      simp only [encode, List.cons_append, List.cons.injEq, true_and] at heq
      obtain ⟨hvalue, hrest⟩ := v.tells w _ _ heq
      exact ⟨by simp only [normalize, hvalue], hrest⟩
    | _ => simp [encode, ExpressionOp.byte] at heq
  | «variable» s =>
    intro e₂ h₂ r r' heq
    cases h₂ with
    | «variable» t =>
      simp only [encode, List.cons_append, List.cons.injEq, true_and] at heq
      obtain ⟨rfl, hrest⟩ := Word.tells_symbol s t _ _ heq
      exact ⟨rfl, hrest⟩
    | _ => simp [encode, ExpressionOp.byte] at heq
  | unary _ ih =>
    intro e₂ h₂ r r' heq
    cases h₂ with
    | unary h₂ =>
      simp only [encode, List.cons_append, List.cons.injEq, true_and] at heq
      obtain ⟨hop, heq⟩ := heq
      obtain ⟨hoperand, hrest⟩ := ih h₂ _ _ heq
      exact ⟨by simp only [normalize, UnaryOp.byte_injective hop, hoperand], hrest⟩
    | _ => simp [encode, ExpressionOp.byte] at heq
  | binary _ _ ihleft ihright =>
    intro e₂ h₂ r r' heq
    cases h₂ with
    | binary hleft hright =>
      simp only [encode, List.cons_append, List.append_assoc, List.cons.injEq, true_and] at heq
      obtain ⟨hop, heq⟩ := heq
      obtain ⟨hleft, heq⟩ := ihleft hleft _ _ heq
      obtain ⟨hright, hrest⟩ := ihright hright _ _ heq
      exact ⟨by simp only [normalize, BinaryOp.byte_injective hop, hleft, hright], hrest⟩
    | _ => simp [encode, ExpressionOp.byte] at heq
  | group _ ih =>
    intro e₂ h₂ r r' heq
    cases h₂ with
    | group h₂ =>
      simp only [encode, List.cons_append, List.cons.injEq, true_and] at heq
      obtain ⟨hinner, hrest⟩ := ih h₂ _ _ heq
      exact ⟨by simp only [normalize, hinner], hrest⟩
    | _ => simp [encode, ExpressionOp.byte] at heq
  | @call callee args hlength _ ih =>
    intro e₂ h₂ r r' heq
    cases h₂ with
    | @call callee' args' hlength' hargs' =>
      simp only [encode, encodeAll_eq_flatMap, List.cons_append, List.append_assoc,
        List.cons.injEq, true_and] at heq
      obtain ⟨hsymbol, heq⟩ := Word.tells_symbol callee callee' _ _ heq
      have hitems := Tells.counted hlength hlength' fun a ha b hb => ih a ha (hargs' b hb)
      obtain ⟨hargs, hrest⟩ := hitems r r' (by simpa using heq)
      exact ⟨by simpa [normalize, normalizeAll_eq_map, hargs] using hsymbol, hrest⟩
    | _ => simp [encode, ExpressionOp.byte] at heq
  | accessor _ _ ihmodule ihinner =>
    intro e₂ h₂ r r' heq
    cases h₂ with
    | accessor hmodule hinner =>
      simp only [encode, List.cons_append, List.append_assoc, List.cons.injEq, true_and] at heq
      obtain ⟨hmodule, heq⟩ := ihmodule hmodule _ _ heq
      obtain ⟨hinner, hrest⟩ := ihinner hinner _ _ heq
      exact ⟨by simp only [normalize, hmodule, hinner], hrest⟩
    | _ => simp [encode, ExpressionOp.byte] at heq

/-- Optional expressions are told apart. -/
theorem tells_optional {a b : Option Expr} (ha : ∀ x ∈ a, x.Encodable) (hb : ∀ y ∈ b, y.Encodable) :
    Tells encodeOptional (Option.map normalize) a b := by
  have h := Tells.optional (a := a) (b := b) (fun x _ => headD_encode_ne_zero x)
    (fun y _ => headD_encode_ne_zero y) fun x hx y hy => (ha x hx).tells (hb y hy)
  simpa only [← encodeOptional_eq] using h

end Expr

namespace Stmt

/-- No statement begins with the zero byte. -/
theorem headD_encode_ne_zero (s : Stmt) : s.encode.headD 0 ≠ 0 := by
  cases s <;> simp [encode, StatementOp.byte]

/-- Where statements are told apart, optional statements are. -/
theorem tells_optional {a b : Option Stmt} (h : ∀ x ∈ a, ∀ y ∈ b, Tells encode normalize x y) :
    Tells encodeOptional normalizeOptional a b := by
  intro r r' heq
  rw [encodeOptional_eq, encodeOptional_eq] at heq
  rw [normalizeOptional_eq_map, normalizeOptional_eq_map]
  exact Tells.optional (fun x _ => headD_encode_ne_zero x) (fun y _ => headD_encode_ne_zero y) h
    _ _ heq

/-- Where statements are told apart, the members of classes and modules are. -/
theorem tells_members {fields methods fields' methods' : List Stmt} {s t : Symbol}
    (hlengths : fields.length < 2 ^ 31 ∧ methods.length < 2 ^ 31)
    (hlengths' : fields'.length < 2 ^ 31 ∧ methods'.length < 2 ^ 31)
    (hfields : ∀ a ∈ fields, ∀ b ∈ fields', Tells encode normalize a b)
    (hmethods : ∀ a ∈ methods, ∀ b ∈ methods', Tells encode normalize a b)
    {r r' : List UInt8}
    (heq : Word.ofSymbol s ++ (Word.ofCount fields.length ++ (fields.flatMap encode ++
        (Word.ofCount methods.length ++ (methods.flatMap encode ++ r)))) =
      Word.ofSymbol t ++ (Word.ofCount fields'.length ++ (fields'.flatMap encode ++
        (Word.ofCount methods'.length ++ (methods'.flatMap encode ++ r'))))) :
    s = t ∧ fields.map normalize = fields'.map normalize ∧
      methods.map normalize = methods'.map normalize ∧ r = r' := by
  obtain ⟨hsymbol, heq⟩ := Word.tells_symbol s t _ _ heq
  have hfirst := Tells.counted hlengths.1 hlengths'.1 hfields
  obtain ⟨hfields, heq⟩ := hfirst _ _ (by simpa using heq)
  have hsecond := Tells.counted hlengths.2 hlengths'.2 hmethods
  obtain ⟨hmethods, hrest⟩ := hsecond r r' (by simpa using heq)
  exact ⟨hsymbol, hfields, hmethods, hrest⟩

/-- Statements are told apart by their encodings. -/
theorem Encodable.tells {s₁ : Stmt} (h₁ : s₁.Encodable) :
    ∀ {s₂ : Stmt}, s₂.Encodable → Tells encode normalize s₁ s₂ := by
  -- As for expressions; counts and first bytes say where lists and optional parts end.
  induction h₁ with
  | print hvalue =>
    intro s₂ h₂ r r' heq
    cases h₂ with
    | print hvalue' =>
      simp only [encode, List.cons_append, List.cons.injEq, true_and] at heq
      obtain ⟨hvalue, hrest⟩ := hvalue.tells hvalue' _ _ heq
      exact ⟨by simp only [normalize, hvalue], hrest⟩
    | _ => simp [encode, StatementOp.byte] at heq
  | branch hcondition _ _ ihpositive ihnegative =>
    intro s₂ h₂ r r' heq
    cases h₂ with
    | branch hcondition' hpositive' hnegative' =>
      simp only [encode, List.cons_append, List.append_assoc, List.cons.injEq, true_and] at heq
      obtain ⟨hcondition, heq⟩ := hcondition.tells hcondition' _ _ heq
      obtain ⟨hpositive, heq⟩ := ihpositive hpositive' _ _ heq
      have hoptional := tells_optional fun x hx y hy => ihnegative x hx (hnegative' y hy)
      obtain ⟨hnegative, hrest⟩ := hoptional _ _ heq
      exact ⟨by simp only [normalize, hcondition, hpositive, hnegative], hrest⟩
    | _ => simp [encode, StatementOp.byte] at heq
  | block hlength _ ih =>
    intro s₂ h₂ r r' heq
    cases h₂ with
    | block hlength' hbody' =>
      simp only [encode, encodeAll_eq_flatMap, List.cons_append, List.cons.injEq, true_and] at heq
      have hitems := Tells.counted hlength hlength' fun a ha b hb => ih a ha (hbody' b hb)
      obtain ⟨hbody, hrest⟩ := hitems r r' heq
      exact ⟨by simp only [normalize, normalizeAll_eq_map, hbody], hrest⟩
    | _ => simp [encode, StatementOp.byte] at heq
  | @declare constant symbol initial hinitial =>
    intro s₂ h₂ r r' heq
    cases h₂ with
    | @declare constant' symbol' initial' hinitial' =>
      simp only [encode, List.cons_append, List.append_assoc, List.cons.injEq, true_and] at heq
      obtain ⟨hflag, heq⟩ := heq
      -- Constants and variables have different flags.
      have hconstant : constant = constant' := by
        cases constant <;> cases constant' <;> simp_all
      obtain ⟨hsymbol, heq⟩ := Word.tells_symbol symbol symbol' _ _ heq
      obtain ⟨hvalue, hrest⟩ := Expr.tells_optional hinitial hinitial' _ _ heq
      exact ⟨by simpa [normalize, hconstant, hvalue] using hsymbol, hrest⟩
    | _ => simp [encode, StatementOp.byte] at heq
  | @assign symbol value hvalue =>
    intro s₂ h₂ r r' heq
    cases h₂ with
    | @assign symbol' value' hvalue' =>
      simp only [encode, List.cons_append, List.append_assoc, List.cons.injEq, true_and] at heq
      obtain ⟨hsymbol, heq⟩ := Word.tells_symbol symbol symbol' _ _ heq
      obtain ⟨hvalue, hrest⟩ := hvalue.tells hvalue' _ _ heq
      exact ⟨by simpa [normalize, hvalue] using hsymbol, hrest⟩
    | _ => simp [encode, StatementOp.byte] at heq
  | loop _ hcondition _ _ ihinitial ihbody ihstep =>
    intro s₂ h₂ r r' heq
    cases h₂ with
    | loop hinitial' hcondition' hbody' hstep' =>
      simp only [encode, List.cons_append, List.append_assoc, List.cons.injEq, true_and] at heq
      have hfirst := tells_optional fun x hx y hy => ihinitial x hx (hinitial' y hy)
      obtain ⟨hinitial, heq⟩ := hfirst _ _ heq
      obtain ⟨hcondition, heq⟩ := hcondition.tells hcondition' _ _ heq
      obtain ⟨hbody, heq⟩ := ihbody hbody' _ _ heq
      have hlast := tells_optional fun x hx y hy => ihstep x hx (hstep' y hy)
      obtain ⟨hstep, hrest⟩ := hlast _ _ heq
      exact ⟨by simp only [normalize, hinitial, hcondition, hbody, hstep], hrest⟩
    | _ => simp [encode, StatementOp.byte] at heq
  | breakLoop =>
    intro s₂ h₂ r r' heq
    cases h₂ with
    | breakLoop => exact ⟨rfl, (List.cons.inj heq).2⟩
    | _ => simp [encode, StatementOp.byte] at heq
  | @function symbol params body hlength _ ih =>
    intro s₂ h₂ r r' heq
    cases h₂ with
    | @function symbol' params' body' hlength' hbody' =>
      simp only [encode, List.cons_append, List.append_assoc, List.cons.injEq, true_and] at heq
      obtain ⟨hsymbol, heq⟩ := Word.tells_symbol symbol symbol' _ _ heq
      have hparams := Tells.counted hlength hlength' fun a _ b _ => Word.tells_symbol a b
      obtain ⟨hparams, heq⟩ := hparams _ _ (by simpa using heq)
      obtain ⟨hbody, hrest⟩ := ih hbody' _ _ heq
      have hsame : params = params' := by simpa using hparams
      exact ⟨by simpa [normalize, hsame, hbody] using hsymbol, hrest⟩
    | _ => simp [encode, StatementOp.byte] at heq
  | @call callee args hlength hargs =>
    intro s₂ h₂ r r' heq
    cases h₂ with
    | @call callee' args' hlength' hargs' =>
      simp only [encode, Expr.encodeAll_eq_flatMap, List.cons_append, List.append_assoc,
        List.cons.injEq, true_and] at heq
      obtain ⟨hsymbol, heq⟩ := Word.tells_symbol callee callee' _ _ heq
      have hitems := Tells.counted hlength hlength' fun a ha b hb =>
        (hargs a ha).tells (hargs' b hb)
      obtain ⟨hargs, hrest⟩ := hitems r r' (by simpa using heq)
      exact ⟨by simpa [normalize, Expr.normalizeAll_eq_map, hargs] using hsymbol, hrest⟩
    | _ => simp [encode, StatementOp.byte] at heq
  | returnValue hvalue =>
    intro s₂ h₂ r r' heq
    cases h₂ with
    | returnValue hvalue' =>
      simp only [encode, List.cons_append, List.cons.injEq, true_and] at heq
      obtain ⟨hvalue, hrest⟩ := Expr.tells_optional hvalue hvalue' _ _ heq
      exact ⟨by simp only [normalize, hvalue], hrest⟩
    | _ => simp [encode, StatementOp.byte] at heq
  | classDecl hfields _ hmethods _ ihfields ihmethods =>
    intro s₂ h₂ r r' heq
    cases h₂ with
    | classDecl hfields' hallfields hmethods' hallmethods =>
      simp only [encode, encodeAll_eq_flatMap, List.cons_append, List.append_assoc,
        List.cons.injEq, true_and] at heq
      obtain ⟨hsymbol, hfields, hmethods, hrest⟩ := tells_members ⟨hfields, hmethods⟩
        ⟨hfields', hmethods'⟩ (fun a ha b hb => ihfields a ha (hallfields b hb))
        (fun a ha b hb => ihmethods a ha (hallmethods b hb)) heq
      exact ⟨by simp only [normalize, normalizeAll_eq_map, hsymbol, hfields, hmethods], hrest⟩
    | _ => simp [encode, StatementOp.byte] at heq
  | module hfields _ hmethods _ ihfields ihmethods =>
    intro s₂ h₂ r r' heq
    cases h₂ with
    | module hfields' hallfields hmethods' hallmethods =>
      simp only [encode, encodeAll_eq_flatMap, List.cons_append, List.append_assoc,
        List.cons.injEq, true_and] at heq
      obtain ⟨hsymbol, hfields, hmethods, hrest⟩ := tells_members ⟨hfields, hmethods⟩
        ⟨hfields', hmethods'⟩ (fun a ha b hb => ihfields a ha (hallfields b hb))
        (fun a ha b hb => ihmethods a ha (hallmethods b hb)) heq
      exact ⟨by simp only [normalize, normalizeAll_eq_map, hsymbol, hfields, hmethods], hrest⟩
    | _ => simp [encode, StatementOp.byte] at heq
  | @importHost symbol target htarget =>
    intro s₂ h₂ r r' heq
    cases h₂ with
    | @importHost symbol' target' htarget' =>
      simp only [encode, List.cons_append, List.append_assoc, List.cons.injEq, true_and] at heq
      obtain ⟨hsymbol, heq⟩ := Word.tells_symbol symbol symbol' _ _ heq
      -- Only a marked alias is told apart from a missing one.
      have hoptional := Tells.optional (fun s hs => (htarget s hs).headD_ofSymbol_ne_zero)
        (fun s hs => (htarget' s hs).headD_ofSymbol_ne_zero) fun s _ t _ => Word.tells_symbol s t
      obtain ⟨halias, hrest⟩ := hoptional _ _ heq
      have hsame : target = target' := by simpa using halias
      exact ⟨by simpa [normalize, hsame] using hsymbol, hrest⟩
    | _ => simp [encode, StatementOp.byte] at heq

/-- Statements that fill all bytes are told apart, even how many they are. -/
theorem normalizeAll_eq_of_encodeAll_eq {ss ts : List Stmt} (hss : ∀ s ∈ ss, s.Encodable)
    (hts : ∀ t ∈ ts, t.Encodable) (heq : encodeAll ss = encodeAll ts) :
    normalizeAll ss = normalizeAll ts := by
  rw [encodeAll_eq_flatMap, encodeAll_eq_flatMap] at heq
  rw [normalizeAll_eq_map, normalizeAll_eq_map]
  refine Tells.eq_of_flatMap_eq (fun s hnil => ?_)
    (fun s hs t ht => (hss s hs).tells (hts t ht)) heq
  exact headD_encode_ne_zero s (by simp [hnil])

end Stmt

/-! ## Programs -/

namespace NameTable

/-- Records of names are told apart up to the characters that one byte does not hold. -/
theorem tells_encodeRecord {r t : String × Symbol} (hr : r.1.toList.length < 2 ^ 32)
    (ht : t.1.toList.length < 2 ^ 32) :
    Tells (fun (name, s) => encodeRecord name s)
      (fun (name, s) => (s, Text.Latin.decode (Text.Latin.encode name))) r t := by
  obtain ⟨name, s⟩ := r
  obtain ⟨name', s'⟩ := t
  intro rest rest' heq
  simp only [encodeRecord, Text.Latin.length_encode, List.append_assoc] at heq
  obtain ⟨hlength, heq⟩ := Word.tells_count hr ht _ _ heq
  obtain ⟨hbytes, heq⟩ := List.append_inj heq (by simpa using hlength)
  obtain ⟨hsymbol, hrest⟩ := Word.tells_symbol s s' _ _ heq
  have hsame : s = s' := hsymbol
  exact ⟨by simp only [hsame, hbytes], hrest⟩

/-- What a record becomes is all that its bytes hold. -/
theorem encodeRecord_decode_encode (name : String) (s : Symbol) :
    encodeRecord (Text.Latin.decode (Text.Latin.encode name)) s = encodeRecord name s := by
  simp only [encodeRecord, Text.Latin.encode_decode]

end NameTable

namespace Builder

/-- The header and the lengths of the names hold what they are written for. -/
structure Fits (b : Builder) : Prop where
  /-- The header says where the code ends. -/
  code : codeStart + b.code.length < 2 ^ 32
  /-- Every name is as long as its record says. -/
  names : ∀ r ∈ b.names, r.1.toList.length < 2 ^ 32

/-- The records hold the names as they are read back, and nothing else. -/
theorem nameRecords_eq (b : Builder) :
    b.nameRecords = b.nameTable.entries.flatMap fun (s, name) => NameTable.encodeRecord name s := by
  simp [nameRecords, nameTable, NameTable.ofRecords, List.flatMap_map,
    NameTable.encodeRecord_decode_encode]

/-- Records of names are the same where the names are read back the same. -/
theorem nameRecords_eq_iff {b₁ b₂ : Builder} (h₁ : b₁.Fits) (h₂ : b₂.Fits) :
    b₁.nameRecords = b₂.nameRecords ↔ b₁.nameTable = b₂.nameTable := by
  constructor
  · intro heq
    -- A record takes at least its length and its symbol.
    have hpos : ∀ r : String × Symbol, NameTable.encodeRecord r.1 r.2 ≠ [] := by
      intro r hnil
      have := congrArg List.length hnil
      rw [NameTable.length_encodeRecord] at this
      simp at this
    have hentries := Tells.eq_of_flatMap_eq hpos
      (fun r hr t ht => NameTable.tells_encodeRecord (h₁.names r hr) (h₂.names t ht)) heq
    exact congrArg NameTable.mk hentries
  · intro hnames
    rw [nameRecords_eq, nameRecords_eq, hnames]

/-- Where two images are the same, so are their codes and their records. -/
theorem code_eq_of_build_eq {b₁ b₂ : Builder} (h₁ : b₁.Fits) (h₂ : b₂.Fits)
    (heq : b₁.build = b₂.build) : b₁.code = b₂.code ∧ b₁.nameRecords = b₂.nameRecords := by
  have hbytes := congrArg Array.toList heq
  simp only [build, List.append_assoc] at hbytes
  -- The header tells where the code ends, and only with it the code is told from the records.
  obtain ⟨hend, hrest⟩ := Word.tells_count h₁.code h₂.code _ _ hbytes
  have hlength : b₁.code.length = b₂.code.length := Nat.add_left_cancel hend
  exact List.append_inj hrest hlength

end Builder

/-- The program that prints one value. -/
def Builder.printing (v : Value) : Builder :=
  Builder.empty.push (.print (.literal v))

end Bytewalk
