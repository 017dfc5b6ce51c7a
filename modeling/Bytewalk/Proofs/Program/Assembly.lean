import Mathlib.Order.Monotone.Basic
import Bytewalk.Program.Builder
import Bytewalk.Proofs.Program.Format

/-!
# Assembled images

What a builder writes is what loading finds: the code where it begins and ends, and the names in
the order of their symbols. The symbols of a builder are numbered in the order of their first use,
and the number is skipped of which the lowest byte is zero; so no two of them are the same until
the numbers wrap.
-/

namespace Bytewalk

/-! ## Numbering -/

namespace Builder

/-- What can be assembled from nothing. -/
inductive Assembled : Builder → Prop
  | empty : Assembled .empty
  | symbol {b : Builder} (h : Assembled b) (name : String) : Assembled (b.symbol name).2
  | push {b : Builder} (h : Assembled b) (statement : Stmt) : Assembled (b.push statement)
  | extend {b : Builder} (h : Assembled b) (statements : List Stmt) :
      Assembled (b.extend statements)

/-- The number of the name before which `i` others have been used. -/
def numberAt (i : Nat) : Nat :=
  i + 1 + i / 255

/-- The symbol of the name before which `i` others have been used. -/
def symbolAt (i : Nat) : Symbol :=
  ⟨Int32.ofNat (numberAt i)⟩

/-- The symbols of the names are numbered in order, and so will the next one be. -/
structure Numbered (b : Builder) : Prop where
  /-- The symbols so far. -/
  symbols : b.names.map (·.2) = (List.range b.names.length).map symbolAt
  /-- The next symbol. -/
  offered : offer b.next = (symbolAt b.names.length).id

/-- The numbers only grow. -/
theorem numberAt_strictMono : StrictMono numberAt := by
  intro i j hlt
  rw [numberAt, numberAt]
  omega

/-- Fewer than 2³⁰ symbols are their numbers, which stay below 2³¹. -/
theorem toInt_symbolAt {i : Nat} (hi : i < 2 ^ 30) : (symbolAt i).id.toInt = numberAt i :=
  Int32.toInt_ofNat_of_lt (by rw [numberAt]; omega)

theorem toNat_ofNat_mod (n : Nat) : (Int32.ofNat n).toUInt32.toNat % 256 = n % 256 := by
  have h : (Int32.ofNat n).toUInt32.toNat = n % 2 ^ 32 := by
    simp
  omega

/-- Behind a number the next one is offered. -/
theorem offer_symbolAt (i : Nat) : offer ((symbolAt i).id + 1) = (symbolAt (i + 1)).id := by
  have hsucc : (symbolAt i).id + 1 = Int32.ofNat (numberAt i + 1) := by
    simp [symbolAt]
  rw [hsucc, offer, toNat_ofNat_mod]
  -- The lowest byte of the next number is zero after every 255 names.
  by_cases hzero : (numberAt i + 1) % 256 = 0
  · have hnext : numberAt (i + 1) = numberAt i + 1 + 1 := by
      rw [numberAt] at hzero ⊢
      rw [numberAt]
      omega
    rw [if_pos hzero, symbolAt, hnext]
    simp
  · have hnext : numberAt (i + 1) = numberAt i + 1 := by
      rw [numberAt] at hzero ⊢
      rw [numberAt]
      omega
    rw [if_neg hzero, symbolAt, hnext]

theorem Assembled.numbered {b : Builder} (h : b.Assembled) : b.Numbered := by
  induction h with
  | empty => exact ⟨rfl, rfl⟩
  | @symbol b _ name ih =>
    rw [Builder.symbol]
    cases b.names.lookup name with
    | some s => exact ih
    | none =>
      constructor
      · simp [List.range_succ, ih.symbols, ih.offered]
      · simp [ih.offered, offer_symbolAt]
  | push _ _ ih | extend _ _ ih => exact ⟨ih.symbols, ih.offered⟩

/-- Fewer than 2³⁰ symbols are different from each other. -/
theorem Numbered.pairwise_ne {b : Builder} (h : b.Numbered) (hnames : b.names.length < 2 ^ 30) :
    b.names.Pairwise fun r r' => r.2 ≠ r'.2 := by
  rw [← List.pairwise_map, h.symbols, List.pairwise_map]
  refine List.pairwise_lt_range.imp_of_mem fun {i j} hi hj hlt heq => ?_
  have hbound : ∀ k ∈ List.range b.names.length, k < 2 ^ 30 := fun k hk =>
    (List.mem_range.1 hk).trans hnames
  have hids : (symbolAt i).id.toInt = (symbolAt j).id.toInt :=
    congrArg (fun s : Symbol => s.id.toInt) heq
  rw [toInt_symbolAt (hbound i hi), toInt_symbolAt (hbound j hj)] at hids
  exact (numberAt_strictMono hlt).ne (Int.ofNat.inj hids)

end Builder

/-! ## Images -/

namespace Builder

variable (b : Builder)

/-- The names as they are read back. -/
def nameTable : NameTable :=
  .ofRecords b.names

theorem size_build : b.build.size = codeStart + b.code.length + b.nameRecords.length := by
  simp [build, codeStart, Nat.add_assoc]

/-- The code stands behind the header. -/
theorem holds_code : b.build.Holds codeStart b.code := by
  have h := Image.Holds.of_append (Word.ofCount (codeStart + b.code.length)) b.code b.nameRecords
  rw [Word.length_ofCount] at h
  exact h

/-- The header stands in front. -/
theorem holds_header : b.build.Holds 0 (Word.ofCount (codeStart + b.code.length)) := by
  have h := Image.Holds.of_append [] (Word.ofCount (codeStart + b.code.length))
    (b.code ++ b.nameRecords)
  rwa [List.nil_append, ← List.append_assoc] at h

variable {b}

/-- The header says where the code ends. -/
theorem toInt_header (hcode : b.code.length < 2 ^ 31 - 4) :
    (b.build.int32At 0).toInt = ((codeStart + b.code.length : Nat) : Int) :=
  b.holds_header.toInt_int32At (by rw [codeStart]; omega)

/-- Loading finds the code of a builder, and reads the names behind it. -/
theorem program_eq (hcode : b.code.length < 2 ^ 31 - 4) :
    b.program = do
      let names ← NameTable.load b.build (codeStart + b.code.length)
      return { image := b.build, codeEnd := codeStart + b.code.length, names } := by
  have hsize := size_build b
  rw [program, Program.load, if_neg (by omega)]
  simp only [toInt_header hcode]
  rw [if_pos ⟨by omega, by omega⟩]
  rfl

/-- What is loaded from the image of a builder has its code; only the names may be others. -/
theorem eq_of_program (hcode : b.code.length < 2 ^ 31 - 4) {program : Program}
    (h : b.program = .ok program) :
    ∃ names, program = { image := b.build, codeEnd := codeStart + b.code.length, names } := by
  rw [program_eq hcode] at h
  cases hnames : NameTable.load b.build (codeStart + b.code.length) with
  | error e =>
    rw [hnames] at h
    cases h
  | ok names =>
    rw [hnames] at h
    cases h
    exact ⟨names, rfl⟩

/-- An image is not loaded if its code ends where the header cannot say. -/
theorem code_lt_of_program (hcode : b.code.length < 2 ^ 31) {p : Program}
    (h : b.program = .ok p) : b.code.length < 2 ^ 31 - 4 := by
  rcases Nat.lt_or_ge b.code.length (2 ^ 31 - 4) with hlt | hge
  · exact hlt
  · have hneg := b.holds_header.toInt_int32At_neg (by rw [codeStart]; omega)
      (by rw [codeStart]; omega)
    have hsize := size_build b
    rw [program, Program.load, if_neg (by omega), if_neg (by rintro ⟨hlow, -⟩; omega)] at h
    cases h

/-- Names are read back where no symbol is named twice. -/
theorem load_names (hdistinct : b.names.Pairwise fun r r' => r.2 ≠ r'.2)
    (hlengths : ∀ r ∈ b.names, r.1.toList.length < 2 ^ 32) :
    NameTable.load b.build (codeStart + b.code.length) = .ok b.nameTable := by
  have hspells : NameTable.Spells b.build (codeStart + b.code.length) 0 b.names := by
    refine ⟨?_, Nat.zero_le _, fun _ _ _ _ => Nat.zero_le _, fun _ => rfl⟩
    -- Nothing but the records stands behind the code, and nothing of them is missing.
    have hcode : codeStart + b.code.length =
        (Word.ofCount (codeStart + b.code.length) ++ b.code).length := by
      rw [List.length_append, Word.length_ofCount, codeStart]
    rw [Image.Ends, List.replicate_zero, List.append_nil, hcode, build, List.drop_left]
    rfl
  exact NameTable.readFrom_of_spells hspells hlengths ⟨fun r _ => rfl, hdistinct⟩

/-- The names of an assembled builder are read back. -/
theorem Assembled.load_names (h : b.Assembled) (hnames : b.names.length < 2 ^ 30)
    (hlengths : ∀ r ∈ b.names, r.1.toList.length < 2 ^ 32) :
    NameTable.load b.build (codeStart + b.code.length) = .ok b.nameTable :=
  Builder.load_names (h.numbered.pairwise_ne hnames) hlengths

end Builder

end Bytewalk
