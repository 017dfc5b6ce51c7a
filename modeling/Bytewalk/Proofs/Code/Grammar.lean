import Bytewalk.Proofs.Code.Wire

/-!
# What passing over accepts

Nothing but the wire grammar is passed over, and nothing but a dialect of it if all parts that a
passage comes to keep to the dialect. `Yields` says of fields that whatever a passage over them
consumes are the bytes of something; the rules put together what the fields of a layout are passed
over as. A part begins behind every part around it, and so an induction on where a passage begins
gives the parts inside a part.
-/

namespace Bytewalk

open Decoder

/-! ## Bytes of an image -/

namespace Image

variable (image : Image) (p : Nat)

/-- Bytes that are read are those in front and those behind. -/
theorem bytesAt_add (m n : Nat) :
    image.bytesAt p (m + n) = image.bytesAt p m ++ image.bytesAt (p + m) n := by
  simp [bytesAt, List.range_add, Nat.add_assoc]

/-- The first byte that is read is the one at the offset. -/
theorem bytesAt_succ (n : Nat) :
    image.bytesAt p (n + 1) = image.byteAt p :: image.bytesAt (p + 1) n := by
  rw [Nat.add_comm, bytesAt_add]
  rfl

/-- Up to an offset inside the image, the bytes that are read are those of the image. -/
theorem bytesAt_eq_extract {q : Nat} (hq : q ≤ image.size) :
    image.bytesAt p (q - p) = (image.extract p q).toList := by
  refine List.ext_getElem (by simp; omega) fun k hk _ => ?_
  have hlt : p + k < image.size := by
    rw [length_bytesAt] at hk
    omega
  simp [bytesAt, byteAt, Array.getD, hlt]

/-- A word is written as the bytes that it has been read from. -/
theorem toBytes_wordAt (width : Nat) :
    Word.toBytes width (image.wordAt p width) = image.bytesAt p width := by
  have h := Word.toBytes_ofBytes (image.bytesAt p width)
  rwa [length_bytesAt] at h

/-- A word is below the number that its width does not hold. -/
theorem wordAt_lt (width : Nat) : image.wordAt p width < 256 ^ width := by
  have h : image.wordAt p width % 256 ^ width = image.wordAt p width := by
    rw [← Word.ofBytes_toBytes, toBytes_wordAt]
    rfl
  exact (Nat.mod_eq_iff_lt (Nat.ne_of_gt (Nat.pow_pos (by decide : 0 < 256)))).1 h

/-- An integer is written as the bytes that it has been read from. -/
theorem ofInt32_int32At : Word.ofInt32 (image.int32At p) = image.bytesAt p 4 := by
  have hlt : image.wordAt p 4 < 2 ^ 32 := image.wordAt_lt p 4
  have hnat : (image.int32At p).toUInt32.toNat = image.wordAt p 4 := by
    simp [int32At]
    omega
  rw [Word.ofInt32, hnat, toBytes_wordAt]

/-- A natural number that is read as an integer fits 31 bits and is written as its bytes. -/
theorem ofCount_of_toInt_int32At {n : Nat} (h : (image.int32At p).toInt = n) :
    n < 2 ^ 31 ∧ Word.ofCount n = image.bytesAt p 4 := by
  have hlt := (image.int32At p).toInt_lt
  have hsame : image.int32At p = Int32.ofNat n := by
    rw [← Int32.ofInt_toInt (image.int32At p), h, Int32.ofInt_eq_ofNat]
  have hnat : (image.int32At p).toUInt32.toNat = n := by
    simp [hsame]
    omega
  refine ⟨by omega, ?_⟩
  rw [← image.ofInt32_int32At, Word.ofInt32, hnat, Word.ofCount]

/-- A binary64 number is written as the bytes that it has been read from. -/
theorem ofBinary64_wordAt :
    Word.ofBinary64 ⟨UInt64.ofNat (image.wordAt p 8)⟩ = image.bytesAt p 8 := by
  have hlt : image.wordAt p 8 < 2 ^ 64 := image.wordAt_lt p 8
  have hnat : (UInt64.ofNat (image.wordAt p 8)).toNat = image.wordAt p 8 := by
    simp
    omega
  rw [Word.ofBinary64, hnat, toBytes_wordAt]

/-- A symbol of which the first byte is not zero is marked. -/
theorem isMarked_of_byteAt_ne_zero (h : image.byteAt p ≠ 0) :
    Symbol.IsMarked ⟨image.int32At p⟩ := by
  have hlt : image.wordAt p 4 < 2 ^ 32 := image.wordAt_lt p 4
  have hword : image.wordAt p 4 =
      (image.byteAt p).toNat + 256 * image.wordAt (p + 1) 3 := by
    rw [wordAt, bytesAt_succ, Word.ofBytes, wordAt]
  have hbyte : (image.byteAt p).toNat ≠ 0 := fun hzero => h (UInt8.toNat_inj.1 hzero)
  have hsmall := (image.byteAt p).toNat_lt
  show (image.int32At p).toUInt32.toNat % 256 ≠ 0
  have hnat : (image.int32At p).toUInt32.toNat = image.wordAt p 4 := by
    simp [int32At]
    omega
  omega

/-- Bytes that have been read begin with the byte at the offset and go on behind it. -/
theorem eq_byteAt_of_cons {b : UInt8} {bytes : List UInt8} {n : Nat}
    (h : b :: bytes = image.bytesAt p n) :
    b = image.byteAt p ∧ ∃ k, bytes = image.bytesAt (p + 1) k := by
  cases n with
  | zero => cases h
  | succ n =>
    rw [bytesAt_succ] at h
    exact ⟨(List.cons.inj h).1, n, (List.cons.inj h).2⟩

end Image

namespace Decoder

variable {image : Image} {p q : Nat}

/-- A count that is read fits 31 bits and is written as its bytes. -/
theorem bytesAt_of_count {least n : Nat} (h : count image least p = .ok n q) :
    n < 2 ^ 31 ∧ Word.ofCount n = image.bytesAt p 4 ∧ q = p + 4 := by
  obtain ⟨hint, -, rfl⟩ := count_eq_ok.1 h
  obtain ⟨hlt, hbytes⟩ := image.ofCount_of_toInt_int32At p hint
  exact ⟨hlt, hbytes, rfl⟩

/-- The tag of a literal is its first byte. -/
theorem byte_of_literalTag {tag : LiteralTag} (h : literalTag image p = .ok tag q) :
    tag.byte = image.byteAt p ∧ q = p + 1 := by
  simp only [literalTag, byte, bind, EStateM.bind] at h
  cases hfound : LiteralTag.ofByte? (image.byteAt p) with
  | none => simp [hfound, fail_eq] at h
  | some found =>
    simp only [hfound] at h
    cases h
    exact ⟨LiteralTag.byte_of_ofByte? hfound, rfl⟩

/-- A text that is read is written as the bytes behind its length. -/
theorem bytesAt_of_textBody {start length : Nat} {bytes : List UInt8}
    (h : textBody image start length p = .ok bytes q) :
    bytes = image.bytesAt p length ∧ q = p + length := by
  obtain rfl := eq_add_of_textBody h
  rw [textBody] at h
  split at h
  · simp [fail_eq] at h
  · rename_i hfits
    have hle : length ≤ image.remaining p := Nat.not_lt.1 hfits
    rw [Image.remaining] at hle
    rw [EStateM.Result.ok.injEq] at h
    refine ⟨?_, rfl⟩
    rcases Nat.eq_zero_or_pos length with rfl | hpos
    · simpa [Image.bytesAt] using h.1.symm
    · have hextract := image.bytesAt_eq_extract p (q := p + length) (by omega)
      rw [Nat.add_sub_cancel_left] at hextract
      rw [hextract, h.1]

end Decoder

/-! ## Parts that are come to -/

/-- The passage over the fields from an offset comes to a part of the kind that begins at `r`. -/
inductive Visits (image : Image) : List Field → Nat → Node → Nat → Prop
  /-- The passage begins with a part. -/
  | part {kind : Node} {n : Nat} {rest : List Field} {p : Nat} :
      Visits image (.nodes kind (n + 1) :: rest) p kind p
  /-- The part is come to inside the first one. -/
  | inside {kind kind' : Node} {n : Nat} {fields rest : List Field} {p r : Nat} :
      kind.layout? (image.byteAt p) = some fields → Visits image fields (p + 1) kind' r →
      Visits image (.nodes kind (n + 1) :: rest) p kind' r
  /-- The part is come to behind the first one, in the same field. -/
  | later {kind kind' : Node} {n : Nat} {rest : List Field} {p q r : Nat} :
      Passes image [.nodes kind 1] p q → Visits image (.nodes kind n :: rest) q kind' r →
      Visits image (.nodes kind (n + 1) :: rest) p kind' r
  /-- The part is come to in a part that may be missing. -/
  | optional {kind kind' : Node} {rest : List Field} {p r : Nat} :
      image.byteAt p ≠ 0 → Visits image [.nodes kind 1] p kind' r →
      Visits image (.optional kind :: rest) p kind' r
  /-- The part is come to behind a count. -/
  | counted {kind kind' : Node} {n : Nat} {rest : List Field} {p q r : Nat} :
      count image 1 p = .ok n q → Visits image [.nodes kind n] q kind' r →
      Visits image (.counted kind :: rest) p kind' r
  /-- The part is come to behind the first field. -/
  | behind {kind' : Node} {field : Field} {rest : List Field} {p q r : Nat} :
      Passes image [field] p q → Visits image rest q kind' r →
      Visits image (field :: rest) p kind' r

namespace Visits

variable {image : Image} {kind kind' : Node} {p r : Nat}

/-- What is come to in fields is come to if more fields follow. -/
theorem append {fields : List Field} (h : Visits image fields p kind r) (rest : List Field) :
    Visits image (fields ++ rest) p kind r := by
  induction h with
  | part => exact .part
  | inside hlayout hinside => exact .inside hlayout hinside
  | later hfirst _ ih => exact .later hfirst ih
  | optional hthere hpart => exact .optional hthere hpart
  | counted hcount hpart => exact .counted hcount hpart
  | behind hfirst _ ih => exact .behind hfirst ih

/-- Nothing is come to without fields. -/
theorem not_nil : ¬ Visits image [] p kind r :=
  nofun

/-- What is come to in one part is the part itself or is inside it. -/
theorem node_iff :
    Visits image [.nodes kind 1] p kind' r ↔ (kind' = kind ∧ r = p) ∨
      ∃ fields, kind.layout? (image.byteAt p) = some fields ∧
        Visits image fields (p + 1) kind' r := by
  constructor
  · intro h
    cases h with
    | part => exact .inl ⟨rfl, rfl⟩
    | inside hlayout hinside => exact .inr ⟨_, hlayout, hinside⟩
    | later _ hrest =>
      cases hrest with
      | behind _ hnil => exact absurd hnil not_nil
    | behind _ hnil => exact absurd hnil not_nil
  · rintro (⟨rfl, rfl⟩ | ⟨fields, hlayout, hinside⟩)
    · exact .part
    · exact .inside hlayout hinside

/-- What is come to in one part and others is come to in all of them. -/
theorem of_split {n : Nat} (h : Visits image [.nodes kind 1, .nodes kind n] p kind' r) :
    Visits image [.nodes kind (n + 1)] p kind' r := by
  -- What is behind the first field is behind the first part.
  cases h with
  | part => exact .part
  | inside hlayout hinside => exact .inside hlayout hinside
  | later hfirst hrest =>
    cases hrest with
    | behind hnone hrest =>
      obtain rfl := passes_nodes_zero.1 hnone
      exact .later hfirst hrest
  | behind hfirst hrest => exact .later hfirst hrest

end Visits

namespace Wire.Dialect

/-- The byte of a statement that the grammar leaves open is one of the dialect. -/
def AllowsStatement (d : Dialect) (image : Image) : StatementOp → Nat → Prop
  | .declare, p => d.truth (image.byteAt p)
  | .reserved, _ => d.reserved
  | _, _ => True

/-- The byte of an expression that the grammar leaves open is one of the dialect. -/
def AllowsExpression (d : Dialect) (image : Image) : ExpressionOp → Nat → Prop
  | .unary, p => d.unary (image.byteAt p)
  | .binary, p => d.binary (image.byteAt p)
  | .literal, p => image.byteAt p = LiteralTag.bool.byte → d.truth (image.byteAt (p + 1))
  | _, _ => True

/-- The part that begins at an offset keeps to the dialect, whatever is inside it. -/
def Allows (d : Dialect) (image : Image) : Node → Nat → Prop
  | .statement, r =>
    ∀ op ∈ StatementOp.ofByte? (image.byteAt r), d.AllowsStatement image op (r + 1)
  | .expression, r =>
    ∀ op ∈ ExpressionOp.ofByte? (image.byteAt r), d.AllowsExpression image op (r + 1)

/-- Every part that the passage over the fields comes to keeps to the dialect. -/
def AllowsAll (d : Dialect) (image : Image) (fields : List Field) (p : Nat) : Prop :=
  ∀ kind r, Visits image fields p kind r → d.Allows image kind r

/-- The whole grammar allows everything. -/
theorem whole_allowsAll (image : Image) (fields : List Field) (p : Nat) :
    whole.AllowsAll image fields p := by
  rintro (_ | _) r -
  · rintro (_ | _) - <;> exact trivial
  · rintro (_ | _) - <;> simp [AllowsExpression, whole]

namespace AllowsAll

variable {d : Dialect} {image : Image} {field : Field} {rest : List Field} {kind : Node}
  {p q n : Nat}

theorem head (h : d.AllowsAll image (field :: rest) p) : d.AllowsAll image [field] p :=
  fun kind r hvisits => h kind r (hvisits.append rest)

theorem behind (h : d.AllowsAll image (field :: rest) p) (hfirst : Passes image [field] p q) :
    d.AllowsAll image rest q :=
  fun kind r hvisits => h kind r (.behind hfirst hvisits)

theorem inside {fields : List Field} (h : d.AllowsAll image [.nodes kind 1] p)
    (hlayout : kind.layout? (image.byteAt p) = some fields) : d.AllowsAll image fields (p + 1) :=
  fun kind r hvisits => h kind r (.inside hlayout hvisits)

theorem split (h : d.AllowsAll image [.nodes kind (n + 1)] p) :
    d.AllowsAll image [.nodes kind 1, .nodes kind n] p :=
  fun kind r hvisits => h kind r hvisits.of_split

theorem optional (h : d.AllowsAll image [.optional kind] p) (hthere : image.byteAt p ≠ 0) :
    d.AllowsAll image [.nodes kind 1] p :=
  fun kind r hvisits => h kind r (.optional hthere hvisits)

theorem counted (h : d.AllowsAll image [.counted kind] p) (hcount : count image 1 p = .ok n q) :
    d.AllowsAll image [.nodes kind n] q :=
  fun kind r hvisits => h kind r (.counted hcount hvisits)

end AllowsAll

end Wire.Dialect

/-! ## What fields yield -/

/-- Whatever a passage over the fields consumes, if it begins at `least` or behind and keeps to the
dialect, is the encoding of something that satisfies `P`. -/
def Yields {α : Type} (d : Wire.Dialect) (image : Image) (least : Nat) (fields : List Field)
    (encode : α → List UInt8) (P : α → Prop) : Prop :=
  ∀ p q, least ≤ p → Passes image fields p q → d.AllowsAll image fields p →
    ∃ a, P a ∧ encode a = image.bytesAt p (q - p)

namespace Yields

variable {α β : Type} {d : Wire.Dialect} {image : Image} {least : Nat} {field : Field}
  {fields : List Field} {kind : Node} {encode : α → List UInt8} {encode' : β → List UInt8}
  {P : α → Prop} {Q : β → Prop}

/-- A first field and others yield what they yield one behind the other. -/
theorem cons (hfirst : Yields d image least [field] encode P)
    (hrest : Yields d image least fields encode' Q) :
    Yields d image least (field :: fields) (fun x : α × β => encode x.1 ++ encode' x.2)
      fun x => P x.1 ∧ Q x.2 := by
  intro p q hp h hparts
  obtain ⟨r, hpr, hrq⟩ := passes_cons.1 h
  have hle := hpr.le
  have hle' := hrq.le
  obtain ⟨a, ha, hencode⟩ := hfirst p r hp hpr hparts.head
  obtain ⟨b, hb, hencode'⟩ := hrest r q (Nat.le_trans hp hle) hrq (hparts.behind hpr)
  refine ⟨(a, b), ⟨ha, hb⟩, ?_⟩
  have hwidth : q - p = (r - p) + (q - r) := by omega
  have hstart : p + (r - p) = r := by omega
  simp only [hencode, hencode', hwidth, Image.bytesAt_add, hstart]

/-- A byte of any content. -/
theorem byte : Yields d image least [.raw 1] (fun b => [b]) fun _ => True := by
  intro p q _ h _
  obtain rfl := passes_raw.1 h
  exact ⟨image.byteAt p, trivial, by simp [Image.bytesAt]⟩

/-- Four bytes are a symbol. -/
theorem symbol : Yields d image least [.symbol] Word.ofSymbol fun _ => True := by
  intro p q _ h _
  obtain rfl := passes_raw.1 h
  refine ⟨⟨image.int32At p⟩, trivial, ?_⟩
  rw [Nat.add_sub_cancel_left]
  exact image.ofInt32_int32At p

/-- The bytes of the reserved form are a symbol and two integers. -/
theorem reserved :
    Yields d image least [.raw 12]
      (fun x : Symbol × Int32 × Int32 =>
        Word.ofSymbol x.1 ++ (Word.ofInt32 x.2.1 ++ Word.ofInt32 x.2.2)) fun _ => True := by
  intro p q _ h _
  obtain rfl := passes_raw.1 h
  refine ⟨(⟨image.int32At p⟩, image.int32At (p + 4), image.int32At (p + 4 + 4)), trivial, ?_⟩
  rw [Nat.add_sub_cancel_left, show 12 = 4 + (4 + 4) from rfl, Image.bytesAt_add,
    Image.bytesAt_add]
  simp only [Word.ofSymbol, Image.ofInt32_int32At]

/-- What is passed over as a literal is one. -/
theorem literal :
    Yields d image least [.literal] Wire.Literal.encode (Wire.Literal.Formed .whole) := by
  intro p q _ h _
  obtain ⟨tag, r, htag, hvalue⟩ := eq_ok_of_bind (passes_literal.1 h)
  obtain ⟨hbyte, rfl⟩ := byte_of_literalTag htag
  have hfront : ∀ n, image.bytesAt p (n + 1) = tag.byte :: image.bytesAt (p + 1) n := by
    intro n
    rw [Image.bytesAt_succ, hbyte]
  cases tag with
  | null =>
    obtain rfl : p + 1 = q := by cases hvalue; rfl
    exact ⟨.null, .null, by rw [Nat.add_sub_cancel_left, hfront 0]; rfl⟩
  | bool =>
    obtain rfl : p + 1 + 1 = q := by cases hvalue; rfl
    refine ⟨.bool (image.byteAt (p + 1)), .bool trivial, ?_⟩
    rw [show p + 1 + 1 - p = 1 + 1 by omega, hfront, Image.bytesAt_succ]
    rfl
  | int =>
    obtain rfl : p + 1 + 4 = q := by cases hvalue; rfl
    refine ⟨.int (image.int32At (p + 1)), .int _, ?_⟩
    rw [show p + 1 + 4 - p = 4 + 1 by omega, hfront, Wire.Literal.encode, Image.ofInt32_int32At]
    rfl
  | float =>
    obtain rfl : p + 1 + 8 = q := by cases hvalue; rfl
    refine ⟨.float ⟨UInt64.ofNat (image.wordAt (p + 1) 8)⟩, .float _, ?_⟩
    rw [show p + 1 + 8 - p = 8 + 1 by omega, hfront, Wire.Literal.encode, Image.ofBinary64_wordAt]
    rfl
  | string =>
    simp only [passShortText] at hvalue
    obtain ⟨start, _, hstart, hvalue⟩ := eq_ok_of_bind hvalue
    cases hstart
    obtain ⟨length, _, hlength, hvalue⟩ := eq_ok_of_bind hvalue
    cases hlength
    obtain ⟨bytes, _, hbytes, hvalue⟩ := eq_ok_of_bind hvalue
    cases hvalue
    obtain ⟨hsame, rfl⟩ := bytesAt_of_textBody hbytes
    have hlength : bytes.length = (image.byteAt (p + 1)).toNat := by simp [hsame]
    have hsmall := (image.byteAt (p + 1)).toNat_lt
    refine ⟨.text bytes, .text (by omega), ?_⟩
    rw [show p + 1 + 1 + (image.byteAt (p + 1)).toNat - p =
      ((image.byteAt (p + 1)).toNat + 1) + 1 by omega, hfront, Image.bytesAt_succ, ← hsame,
      Wire.Literal.encode, hlength, UInt8.ofNat_toNat]
    rfl

/-- Parts one behind the other. -/
theorem nodes (h : Yields d image least [.nodes kind 1] encode P) (n : Nat) :
    Yields d image least [.nodes kind n] (List.flatMap encode)
      fun as => as.length = n ∧ ∀ a ∈ as, P a := by
  induction n with
  | zero =>
    intro p q _ hnodes _
    obtain rfl := passes_nodes_zero.1 hnodes
    exact ⟨[], by simp, by simp [Image.bytesAt]⟩
  | succ n ih =>
    intro p q hp hnodes hparts
    obtain ⟨r, hpr, hrq⟩ := passes_nodes_succ.1 hnodes
    -- The first part and the others are passed over like a field and another one.
    obtain ⟨⟨a, as⟩, ⟨ha, hlength, has⟩, hencode⟩ :=
      (h.cons ih) p q hp (passes_cons.2 ⟨r, hpr, hrq⟩) hparts.split
    refine ⟨a :: as, ⟨by simp [hlength], ?_⟩, by simpa using hencode⟩
    rintro b (_ | ⟨_, hb⟩)
    · exact ha
    · exact has b hb

/-- A counted list of parts. -/
theorem counted (h : Yields d image least [.nodes kind 1] encode P) :
    Yields d image least [.counted kind]
      (fun as : List α => Word.ofCount as.length ++ as.flatMap encode)
      fun as => as.length < 2 ^ 31 ∧ ∀ a ∈ as, P a := by
  intro p q hp hcounted hparts
  obtain ⟨n, r, hcount, hnodes⟩ := passes_counted.1 hcounted
  obtain ⟨hn, hword, rfl⟩ := bytesAt_of_count hcount
  obtain ⟨as, ⟨rfl, has⟩, hencode⟩ := h.nodes n (p + 4) q (by omega) hnodes (hparts.counted hcount)
  have hle := hnodes.le
  refine ⟨as, ⟨hn, has⟩, ?_⟩
  rw [show q - p = 4 + (q - (p + 4)) by omega, Image.bytesAt_add, ← hword, ← hencode]

/-- A part, or the zero byte in its place. -/
theorem optional (h : Yields d image least [.nodes kind 1] encode P) :
    Yields d image least [.optional kind] (fun a : Option α => (a.map encode).getD [0])
      fun a => ∀ x ∈ a, P x := by
  intro p q hp hoptional hparts
  by_cases hzero : image.byteAt p = 0
  · obtain rfl := (passes_optional_of_zero hzero).1 hoptional
    exact ⟨none, by simp, by simp [Image.bytesAt, hzero]⟩
  · obtain ⟨a, ha, hencode⟩ :=
      h p q hp ((passes_optional_of_ne_zero hzero).1 hoptional) (hparts.optional hzero)
    exact ⟨some a, by simpa using ha, by simpa using hencode⟩

/-- A marked symbol, or the zero byte in its place. -/
theorem optionalSymbol :
    Yields d image least [.optionalSymbol] (fun s : Option Symbol => (s.map Word.ofSymbol).getD [0])
      fun s => ∀ t ∈ s, t.IsMarked := by
  intro p q _ hoptional _
  -- An alias that is there does not begin with zero, which is what marks it.
  by_cases hzero : image.byteAt p = 0
  · obtain rfl := (passes_optionalSymbol_of_zero hzero).1 hoptional
    exact ⟨none, by simp, by simp [Image.bytesAt, hzero]⟩
  · obtain rfl := (passes_optionalSymbol_of_ne_zero hzero).1 hoptional
    refine ⟨some ⟨image.int32At p⟩, ?_, ?_⟩
    · simpa using image.isMarked_of_byteAt_ne_zero p hzero
    · rw [Nat.add_sub_cancel_left]
      exact image.ofInt32_int32At p

/-- So many symbols are read from four times as many bytes. -/
theorem exists_symbols (image : Image) (p n : Nat) :
    ∃ symbols : List Symbol, symbols.length = n ∧
      symbols.flatMap Word.ofSymbol = image.bytesAt p (n * 4) := by
  induction n generalizing p with
  | zero => exact ⟨[], rfl, by simp [Image.bytesAt]⟩
  | succ n ih =>
    obtain ⟨symbols, hlength, hencode⟩ := ih (p + 4)
    refine ⟨⟨image.int32At p⟩ :: symbols, by simp [hlength], ?_⟩
    rw [Nat.succ_mul, Nat.add_comm, Image.bytesAt_add, List.flatMap_cons, hencode]
    congr 1
    exact image.ofInt32_int32At p

/-- A counted list of symbols. -/
theorem symbols :
    Yields d image least [.symbols]
      (fun symbols : List Symbol => Word.ofCount symbols.length ++ symbols.flatMap Word.ofSymbol)
      fun symbols => symbols.length < 2 ^ 31 := by
  intro p q _ h _
  obtain ⟨n, r, hcount, rfl⟩ := passes_symbols.1 h
  obtain ⟨hn, hword, rfl⟩ := bytesAt_of_count hcount
  obtain ⟨symbols, rfl, hencode⟩ := exists_symbols image (p + 4) n
  refine ⟨symbols, hn, ?_⟩
  rw [show p + 4 + symbols.length * 4 - p = 4 + symbols.length * 4 by omega, Image.bytesAt_add,
    ← hword, ← hencode]

/-- Where a passage ends inside the image, what it consumes are bytes of the image. -/
theorem exists_extract {p q : Nat} (h : Yields d image p fields encode P)
    (hpasses : Passes image fields p q) (hq : q ≤ image.size)
    (hparts : d.AllowsAll image fields p) :
    ∃ a, P a ∧ encode a = (image.extract p q).toList := by
  rw [← image.bytesAt_eq_extract p hq]
  exact h p q (Nat.le_refl p) hpasses hparts

end Yields

/-! ## Parts -/

namespace Wire

variable {image : Image} {least p q : Nat}

/-- What is passed over as the fields of an expression is the bytes of one behind its first byte. -/
theorem exists_of_expressionLayout {op : ExpressionOp}
    (he : Yields d image least [.expression] Expr.encode (Expr.Formed d)) (hp : least ≤ p)
    (h : Passes image op.layout p q) (hparts : d.AllowsAll image op.layout p)
    (hallows : d.AllowsExpression image op p) :
    ∃ w : Expr, w.Formed d ∧ w.encode = op.byte :: image.bytesAt p (q - p) := by
  cases op with
  | unary =>
    obtain ⟨⟨code, operand⟩, ⟨-, hoperand⟩, hencode⟩ := Yields.byte.cons he p q hp h hparts
    obtain rfl : code = image.byteAt p := (image.eq_byteAt_of_cons p hencode).1
    exact ⟨.unary _ operand, .unary hallows hoperand, by
      simp [Expr.encode, ExpressionOp.byte, ← hencode]⟩
  | binary =>
    obtain ⟨⟨code, left, right⟩, ⟨-, hleft, hright⟩, hencode⟩ :=
      Yields.byte.cons (he.cons he) p q hp h hparts
    obtain rfl : code = image.byteAt p := (image.eq_byteAt_of_cons p hencode).1
    exact ⟨.binary _ left right, .binary hallows hleft hright, by
      simp [Expr.encode, ExpressionOp.byte, ← hencode]⟩
  | group =>
    obtain ⟨inner, hinner, hencode⟩ := he p q hp h hparts
    exact ⟨.group inner, .group hinner, by simp [Expr.encode, ExpressionOp.byte, ← hencode]⟩
  | literal =>
    obtain ⟨value, hvalue, hencode⟩ := Yields.literal p q hp h hparts
    have hformed : value.Formed d := by
      refine hvalue.restrict fun truth htruth => ?_
      rw [htruth] at hencode
      -- A truth value is the byte behind the tag.
      obtain ⟨htag, _, hbehind⟩ := image.eq_byteAt_of_cons p hencode
      exact (image.eq_byteAt_of_cons (p + 1) hbehind).1 ▸ hallows htag.symm
    exact ⟨.literal value, .literal hformed, by simp [Expr.encode, ExpressionOp.byte, ← hencode]⟩
  | «variable» =>
    obtain ⟨symbol, -, hencode⟩ := Yields.symbol p q hp h hparts
    exact ⟨.variable symbol, .variable symbol, by
      simp [Expr.encode, ExpressionOp.byte, ← hencode]⟩
  | call =>
    obtain ⟨⟨callee, args⟩, ⟨-, hlength, hargs⟩, hencode⟩ :=
      Yields.symbol.cons he.counted p q hp h hparts
    exact ⟨.call callee args, .call hlength hargs, by
      simp [Expr.encode, ExpressionOp.byte, Expr.encodeAll_eq_flatMap, ← hencode]⟩
  | accessor =>
    obtain ⟨⟨module, inner⟩, ⟨hmodule, hinner⟩, hencode⟩ := he.cons he p q hp h hparts
    exact ⟨.accessor module inner, .accessor hmodule hinner, by
      simp [Expr.encode, ExpressionOp.byte, ← hencode]⟩

/-- What is passed over as the fields of a statement is the bytes of one behind its first byte. -/
theorem exists_of_statementLayout {op : StatementOp}
    (hs : Yields d image least [.statement] Stmt.encode (Stmt.Formed d))
    (he : Yields d image least [.expression] Expr.encode (Expr.Formed d)) (hp : least ≤ p)
    (h : Passes image op.layout p q) (hparts : d.AllowsAll image op.layout p)
    (hallows : d.AllowsStatement image op p) :
    ∃ w : Stmt, w.Formed d ∧ w.encode = op.byte :: image.bytesAt p (q - p) := by
  -- For every operation the rules are put together as its layout puts the fields together.
  cases op with
  | print =>
    obtain ⟨value, hvalue, hencode⟩ := he p q hp h hparts
    exact ⟨.print value, .print hvalue, by simp [Stmt.encode, StatementOp.byte, ← hencode]⟩
  | branch =>
    obtain ⟨⟨condition, positive, negative⟩, ⟨hcondition, hpositive, hnegative⟩, hencode⟩ :=
      he.cons (hs.cons hs.optional) p q hp h hparts
    exact ⟨.branch condition positive negative, .branch hcondition hpositive hnegative, by
      simp [Stmt.encode, StatementOp.byte, Stmt.encodeOptional_eq, ← hencode]⟩
  | block =>
    obtain ⟨body, ⟨hlength, hbody⟩, hencode⟩ := hs.counted p q hp h hparts
    exact ⟨.block body, .block hlength hbody, by
      simp [Stmt.encode, StatementOp.byte, Stmt.encodeAll_eq_flatMap, ← hencode]⟩
  | declare =>
    obtain ⟨⟨flag, symbol, initial⟩, ⟨-, -, hinitial⟩, hencode⟩ :=
      Yields.byte.cons (Yields.symbol.cons he.optional) p q hp h hparts
    obtain rfl : flag = image.byteAt p := (image.eq_byteAt_of_cons p hencode).1
    exact ⟨.declare _ symbol initial, .declare hallows hinitial, by
      simp [Stmt.encode, StatementOp.byte, Expr.encodeOptional_eq, ← hencode]⟩
  | assign =>
    obtain ⟨⟨symbol, value⟩, ⟨-, hvalue⟩, hencode⟩ := Yields.symbol.cons he p q hp h hparts
    exact ⟨.assign symbol value, .assign hvalue, by
      simp [Stmt.encode, StatementOp.byte, ← hencode]⟩
  | loop =>
    obtain ⟨⟨initial, condition, body, step⟩, ⟨hinitial, hcondition, hbody, hstep⟩, hencode⟩ :=
      hs.optional.cons (he.cons (hs.cons hs.optional)) p q hp h hparts
    exact ⟨.loop initial condition body step, .loop hinitial hcondition hbody hstep, by
      simp [Stmt.encode, StatementOp.byte, Stmt.encodeOptional_eq, ← hencode]⟩
  | breakLoop =>
    obtain rfl := passes_nil.1 h
    exact ⟨.breakLoop, .breakLoop, by simp [Stmt.encode, StatementOp.byte, Image.bytesAt]⟩
  | function =>
    obtain ⟨⟨symbol, params, body⟩, ⟨-, hlength, hbody⟩, hencode⟩ :=
      Yields.symbol.cons (Yields.symbols.cons hs) p q hp h hparts
    exact ⟨.function symbol params body, .function hlength hbody, by
      simp [Stmt.encode, StatementOp.byte, ← hencode]⟩
  | call =>
    obtain ⟨⟨callee, args⟩, ⟨-, hlength, hargs⟩, hencode⟩ :=
      Yields.symbol.cons he.counted p q hp h hparts
    exact ⟨.call callee args, .call hlength hargs, by
      simp [Stmt.encode, StatementOp.byte, Expr.encodeAll_eq_flatMap, ← hencode]⟩
  | returnValue =>
    obtain ⟨value, hvalue, hencode⟩ := he.optional p q hp h hparts
    exact ⟨.returnValue value, .returnValue hvalue, by
      simp [Stmt.encode, StatementOp.byte, Expr.encodeOptional_eq, ← hencode]⟩
  | classDecl =>
    obtain ⟨⟨symbol, fields, methods⟩, ⟨-, ⟨hfields, hfields'⟩, hmethods, hmethods'⟩, hencode⟩ :=
      Yields.symbol.cons (hs.counted.cons hs.counted) p q hp h hparts
    exact ⟨.classDecl symbol fields methods, .classDecl hfields hfields' hmethods hmethods', by
      simp [Stmt.encode, StatementOp.byte, Stmt.encodeAll_eq_flatMap, ← hencode]⟩
  | module =>
    obtain ⟨⟨symbol, fields, methods⟩, ⟨-, ⟨hfields, hfields'⟩, hmethods, hmethods'⟩, hencode⟩ :=
      Yields.symbol.cons (hs.counted.cons hs.counted) p q hp h hparts
    exact ⟨.module symbol fields methods, .module hfields hfields' hmethods hmethods', by
      simp [Stmt.encode, StatementOp.byte, Stmt.encodeAll_eq_flatMap, ← hencode]⟩
  | importHost =>
    obtain ⟨⟨symbol, target⟩, ⟨-, htarget⟩, hencode⟩ :=
      Yields.symbol.cons Yields.optionalSymbol p q hp h hparts
    exact ⟨.importHost symbol target, .importHost htarget, by
      simp [Stmt.encode, StatementOp.byte, ← hencode]⟩
  | reserved =>
    obtain ⟨⟨⟨symbol, first, second⟩, body⟩, ⟨-, hbody⟩, hencode⟩ :=
      Yields.reserved.cons hs p q hp h hparts
    exact ⟨.reserved symbol first second body, .reserved hallows hbody, by
      simp [Stmt.encode, StatementOp.byte, ← hencode]⟩

/-- Whatever is passed over as a part is the bytes of a tree of the grammar. -/
theorem yields_parts (d : Dialect) (image : Image) (least : Nat) :
    Yields d image least [.statement] Stmt.encode (Stmt.Formed d) ∧
      Yields d image least [.expression] Expr.encode (Expr.Formed d) := by
  -- The induction is on the bytes that are left; a part takes one of them before its own parts.
  generalize hleft : image.size - least = left
  induction left using Nat.strongRecOn generalizing least with
  | _ left ih =>
    have hinside : ∀ {kind : Node} {p q : Nat}, least ≤ p → Passes image [.nodes kind 1] p q →
        Yields d image (p + 1) [.statement] Stmt.encode (Stmt.Formed d) ∧
          Yields d image (p + 1) [.expression] Expr.encode (Expr.Formed d) := by
      intro kind p q hp h
      have hlt := Image.lt_size_of_byteAt_ne_zero h.byteAt_ne_zero
      exact ih _ (by omega) (p + 1) rfl
    have hfront : ∀ {p q : Nat}, p + 1 ≤ q →
        image.bytesAt p (q - p) = image.byteAt p :: image.bytesAt (p + 1) (q - (p + 1)) := by
      intro p q hle
      rw [← image.bytesAt_succ p]
      congr 1
      omega
    constructor
    · intro p q hp h hparts
      obtain ⟨hs, he⟩ := hinside hp h
      obtain ⟨fields, hlayout, hrest⟩ := passes_node.1 h
      have hfields := hparts.inside hlayout
      obtain ⟨op, hop, rfl⟩ := Option.map_eq_some_iff.1 hlayout
      obtain ⟨w, hw, hencode⟩ :=
        exists_of_statementLayout hs he (Nat.le_refl _) hrest hfields (hparts _ p .part op hop)
      exact ⟨w, hw, by rw [hfront hrest.le, hencode, StatementOp.byte_of_ofByte? hop]⟩
    · intro p q hp h hparts
      obtain ⟨-, he⟩ := hinside hp h
      obtain ⟨fields, hlayout, hrest⟩ := passes_node.1 h
      have hfields := hparts.inside hlayout
      obtain ⟨op, hop, rfl⟩ := Option.map_eq_some_iff.1 hlayout
      obtain ⟨w, hw, hencode⟩ :=
        exists_of_expressionLayout he (Nat.le_refl _) hrest hfields (hparts _ p .part op hop)
      exact ⟨w, hw, by rw [hfront hrest.le, hencode, ExpressionOp.byte_of_ofByte? hop]⟩

end Wire

/-- What is passed over is the wire grammar: where passing over a statement ends inside the image,
the bytes from its beginning to its end are the bytes of a tree of the grammar; and they are the
bytes of a program tree if no part that is come to is reserved or has a strange operator, flag or
truth value. The same is true of expressions. -/
theorem pass_spells :
    (∀ (image : Image) (p q : Nat), passStatement image p = .ok () q → q ≤ image.size →
      (∃ w : Wire.Stmt, w.Formed .whole ∧ w.encode = (image.extract p q).toList) ∧
      ((∀ kind r, Visits image [.statement] p kind r → Wire.Dialect.source.Allows image kind r) →
        ∃ s : Stmt, s.Encodable ∧ s.encode = (image.extract p q).toList)) ∧
    (∀ (image : Image) (p q : Nat), passExpression image p = .ok () q → q ≤ image.size →
      (∃ w : Wire.Expr, w.Formed .whole ∧ w.encode = (image.extract p q).toList) ∧
      ((∀ kind r, Visits image [.expression] p kind r → Wire.Dialect.source.Allows image kind r) →
        ∃ e : Expr, e.Encodable ∧ e.encode = (image.extract p q).toList)) := by
  constructor
  · intro image p q h hq
    have hspells := fun d => (Wire.yields_parts d image p).1.exists_extract h hq
    refine ⟨hspells .whole (Wire.Dialect.whole_allowsAll image _ p), fun hparts => ?_⟩
    obtain ⟨w, hw, hencode⟩ := hspells .source hparts
    rw [← hencode]
    exact hw.exists_stmt
  · intro image p q h hq
    have hspells := fun d => (Wire.yields_parts d image p).2.exists_extract h hq
    refine ⟨hspells .whole (Wire.Dialect.whole_allowsAll image _ p), fun hparts => ?_⟩
    obtain ⟨w, hw, hencode⟩ := hspells .source hparts
    rw [← hencode]
    exact hw.exists_expr

/-- A reserved statement around a declaration with a strange flag, and a truth value that is
neither zero nor one, are in the grammar only; a break and a null literal are programs too. -/
theorem pass_spells_strange :
    (∃ w : Wire.Stmt, w.Formed .whole ∧
      w.encode = [0x0E, 1, 0, 0, 0, 2, 0, 0, 0, 3, 0, 0, 0, 0x04, 9, 1, 0, 0, 0, 0]) ∧
      (∃ s : Stmt, s.Encodable ∧ s.encode = [0x07]) ∧
      (∃ w : Wire.Expr, w.Formed .whole ∧ w.encode = [0x04, 0x01, 7]) ∧
      ∃ e : Expr, e.Encodable ∧ e.encode = [0x04, 0x00] := by
  have hreserved : passStatement
      #[0x0E, 1, 0, 0, 0, 2, 0, 0, 0, 3, 0, 0, 0, 0x04, 9, 1, 0, 0, 0, 0, 5] 0 = .ok () 20 := by
    refine passes_node.2 ⟨StatementOp.reserved.layout, rfl, ?_⟩
    refine passes_cons.2 ⟨13, passes_raw.2 rfl, ?_⟩
    refine passes_node.2 ⟨StatementOp.declare.layout, rfl, ?_⟩
    refine passes_cons.2 ⟨15, passes_raw.2 rfl, ?_⟩
    exact passes_cons.2 ⟨19, passes_raw.2 rfl, (passes_optional_of_zero rfl).2 rfl⟩
  have hbreak : passStatement #[0x07] 0 = .ok () 1 :=
    passes_node.2 ⟨StatementOp.breakLoop.layout, rfl, passes_nil.2 rfl⟩
  have htruth : passExpression #[0x04, 0x01, 7] 0 = .ok () 3 :=
    passes_node.2 ⟨ExpressionOp.literal.layout, rfl, passes_literal.2 rfl⟩
  have hnull : passExpression #[9, 0x04, 0x00] 1 = .ok () 3 :=
    passes_node.2 ⟨ExpressionOp.literal.layout, rfl, passes_literal.2 rfl⟩
  refine ⟨?_, ?_, ?_, ?_⟩
  · exact (pass_spells.1 _ 0 20 hreserved (by decide)).1
  · refine (pass_spells.1 _ 0 1 hbreak (by decide)).2 fun kind r hvisits => ?_
    rcases Visits.node_iff.1 hvisits with ⟨rfl, rfl⟩ | ⟨fields, hlayout, hinside⟩
    · rintro _ ⟨⟩
      exact trivial
    · obtain rfl : [] = fields := Option.some.inj hlayout
      exact absurd hinside Visits.not_nil
  · exact (pass_spells.2 _ 0 3 htruth (by decide)).1
  · refine (pass_spells.2 _ 1 3 hnull (by decide)).2 fun kind r hvisits => ?_
    rcases Visits.node_iff.1 hvisits with ⟨rfl, rfl⟩ | ⟨fields, hlayout, hinside⟩
    · rintro _ ⟨⟩ htag
      exact absurd htag (by decide)
    · obtain rfl : [.literal] = fields := Option.some.inj hlayout
      cases hinside with
      | behind _ hnil => exact absurd hnil Visits.not_nil

end Bytewalk
