import Mathlib
import Bytewalk.Proofs.Program.Assembly

/-!
# Round trips through an image

What the loader finds in the image of a builder, told by the calls that the builder has received.
The statements come back as the bytes of their encodings, and every name that was interned comes
back at the symbol that interning gave for it, with a question mark for every character that has no
byte. Nothing else has a name.
-/

namespace Bytewalk

namespace Builder

/-! ## Calls of a builder -/

/-- A call of a builder. -/
inductive Step where
  /-- The symbol of a name is asked for. -/
  | symbol (name : String)
  /-- A statement is added. -/
  | push (statement : Stmt)
  /-- Statements are added. -/
  | extend (statements : List Stmt)

namespace Step

/-- The builder behind the call. -/
def apply (b : Builder) : Step → Builder
  | symbol name => (b.symbol name).2
  | push statement => b.push statement
  | extend statements => b.extend statements

/-- The name that the call interns. -/
def name? : Step → Option String
  | symbol name => some name
  | push _ | extend _ => none

/-- The statements that the call adds. -/
def statements : Step → List Stmt
  | symbol _ => []
  | push statement => [statement]
  | extend statements => statements

end Step

/-- The builder that has received the calls in order, beginning with nothing. -/
def ofSteps (steps : List Step) : Builder :=
  steps.foldl Step.apply .empty

/-- The names that the calls intern, each at its first use. -/
def internedNames (steps : List Step) : List String :=
  (steps.filterMap Step.name?).eraseDups

/-- The calls intern the name: one of them asked for its symbol and was given this one. -/
def Interns (steps : List Step) (name : String) (s : Symbol) : Prop :=
  ∃ before after, steps = before ++ .symbol name :: after ∧
    ((ofSteps before).symbol name).1 = s

variable (steps : List Step)

theorem ofSteps_concat (step : Step) :
    ofSteps (steps ++ [step]) = step.apply (ofSteps steps) := by
  rw [ofSteps, List.foldl_append]
  rfl

/-- What receives calls is assembled from nothing. -/
theorem assembled_ofSteps : (ofSteps steps).Assembled := by
  induction steps using List.reverseRecOn with
  | nil => exact .empty
  | append_singleton steps step ih =>
    rw [ofSteps_concat]
    cases step with
    | symbol name => exact ih.symbol name
    | push statement => exact ih.push statement
    | extend statements => exact ih.extend statements

/-- The statements are those of the calls. -/
theorem statements_ofSteps : (ofSteps steps).statements = steps.flatMap Step.statements := by
  induction steps using List.reverseRecOn with
  | nil => rfl
  | append_singleton steps step ih =>
    rw [ofSteps_concat, List.flatMap_append, ← ih, List.flatMap_singleton]
    cases step with
    | symbol name =>
      rw [Step.apply, Builder.symbol, Step.statements, List.append_nil]
      cases (ofSteps steps).names.lookup name <;> rfl
    | push statement | extend statements => rfl

/-! ## Interned names -/

/-- A name is added at its first use, with the symbol that is given for it. -/
theorem names_symbol (b : Builder) (name : String) :
    (b.symbol name).2.names =
      if name ∈ b.names.map (·.1) then b.names else b.names ++ [(name, (b.symbol name).1)] := by
  rw [Builder.symbol]
  cases hfound : b.names.lookup name with
  | some s =>
    obtain ⟨before, after, heq, -⟩ := List.lookup_eq_some_iff.1 hfound
    rw [if_pos (by simp [heq])]
  | none =>
    have hnew : name ∉ b.names.map (·.1) := by
      intro hmem
      obtain ⟨r, hr, rfl⟩ := List.mem_map.1 hmem
      simpa using List.lookup_eq_none_iff.1 hfound r hr
    rw [if_neg hnew]

/-- Asking for a symbol leaves a name with the symbol, and the other names as they were. -/
theorem mem_names_symbol (b : Builder) (name name' : String) (s : Symbol) :
    (name', s) ∈ (b.symbol name).2.names ↔
      (name', s) ∈ b.names ∨ (name = name' ∧ (b.symbol name).1 = s) := by
  rw [Builder.symbol]
  cases hfound : b.names.lookup name with
  | some s' =>
    -- The symbol that is found again is among the names already.
    obtain ⟨before, after, heq, -⟩ := List.lookup_eq_some_iff.1 hfound
    refine ⟨.inl, ?_⟩
    rintro (hmem | ⟨rfl, rfl⟩)
    · exact hmem
    · simp [heq]
  | none => simp [eq_comm]

/-- The names are those that the calls intern. -/
theorem map_fst_names_ofSteps : (ofSteps steps).names.map (·.1) = internedNames steps := by
  induction steps using List.reverseRecOn with
  | nil => rfl
  | append_singleton steps step ih =>
    rw [internedNames] at ih
    rw [ofSteps_concat, internedNames, List.filterMap_append, List.eraseDups_append, ← ih]
    cases step with
    | symbol name =>
      have hlast : [Step.symbol name].filterMap Step.name? = [name] := rfl
      rw [hlast]
      generalize steps.filterMap Step.name? = earlier at ih
      simp only [Step.apply, names_symbol, ih, List.mem_eraseDups]
      -- A name that has been used before adds nothing.
      by_cases hmem : name ∈ earlier
      · simp [List.removeAll, hmem, ih]
      · simp [List.removeAll, hmem, ih, List.eraseDups_cons]
    | push statement | extend statements => exact (List.append_nil _).symm

/-- A name is interned by the calls so far or by the last one. -/
theorem interns_concat {step : Step} {name : String} {s : Symbol} :
    Interns (steps ++ [step]) name s ↔ Interns steps name s ∨
      (step = .symbol name ∧ ((ofSteps steps).symbol name).1 = s) := by
  constructor
  · rintro ⟨before, after, heq, rfl⟩
    rcases List.eq_nil_or_concat after with rfl | ⟨after, last, rfl⟩
    · obtain ⟨rfl, hlast⟩ := List.append_inj' heq rfl
      exact .inr ⟨(List.cons.inj hlast).1, rfl⟩
    · rw [List.concat_eq_append, ← List.cons_append, ← List.append_assoc] at heq
      obtain ⟨rfl, -⟩ := List.append_inj' heq rfl
      exact .inl ⟨before, after, rfl, rfl⟩
  · rintro (⟨before, after, rfl, rfl⟩ | ⟨rfl, rfl⟩)
    · exact ⟨before, after ++ [step], by simp, rfl⟩
    · exact ⟨steps, [], rfl, rfl⟩

/-- The calls intern what stands among the names of the builder. -/
theorem interns_iff {name : String} {s : Symbol} :
    Interns steps name s ↔ (name, s) ∈ (ofSteps steps).names := by
  -- Every call leaves the names that there are, and a symbol that is asked for is among them.
  induction steps using List.reverseRecOn with
  | nil =>
    refine ⟨?_, by rintro ⟨⟩⟩
    rintro ⟨before, after, heq, -⟩
    simp at heq
  | append_singleton steps step ih =>
    rw [interns_concat, ofSteps_concat, ih]
    cases step with
    | symbol name' =>
      rw [Step.apply, mem_names_symbol, Step.symbol.injEq]
      constructor
      · rintro (hmem | ⟨rfl, rfl⟩)
        · exact .inl hmem
        · exact .inr ⟨rfl, rfl⟩
      · rintro (hmem | ⟨rfl, rfl⟩)
        · exact .inl hmem
        · exact .inr ⟨rfl, rfl⟩
    | push statement | extend statements => simp [Step.apply, push, extend]

end Builder

/-! ## Tables of records -/

namespace NameTable

variable {records : List (String × Symbol)} {name : String} {s : Symbol}

/-- Where no symbol is named twice, the record of a symbol is found. -/
theorem get?_ofRecords (hdistinct : records.Pairwise fun r r' => r.2 ≠ r'.2)
    (h : (name, s) ∈ records) :
    (ofRecords records).get? s =
      some (String.ofList (name.toList.map fun c => if c.toNat < 256 then c else '?')) := by
  obtain ⟨before, after, rfl⟩ := List.append_of_mem h
  -- The records before it name other symbols.
  have hothers : ∀ r ∈ before, r.2 ≠ s := fun r hr =>
    (List.pairwise_append.1 hdistinct).2.2 r hr _ List.mem_cons_self
  rw [get?, List.lookup_eq_some_iff]
  refine ⟨(ofRecords before).entries, (ofRecords after).entries, ?_, fun e he => ?_⟩
  · simp [ofRecords, Text.Latin.decode_encode]
  · obtain ⟨r, hr, rfl⟩ := List.mem_map.1 he
    exact bne_iff_ne.2 (hothers r hr).symm

/-- A symbol of which there is no record has no name. -/
theorem get?_ofRecords_of_not_mem (h : ∀ name, (name, s) ∉ records) :
    (ofRecords records).get? s = none := by
  refine List.lookup_eq_none_iff.2 fun e he => ?_
  obtain ⟨⟨name, s'⟩, hr, rfl⟩ := List.mem_map.1 he
  have hne : s ≠ s' := by
    rintro rfl
    exact h name hr
  simpa using hne

end NameTable

namespace Builder

/-- Images round-trip through the loader. The image of a builder that has received some calls is
loaded: its code is the encodings of the statements in the order in which they were added, and its
table has one entry for each name that was interned. A symbol that was given for a name has this
name, up to characters past U+00FF, and no other symbol has a name. -/
theorem load_build (steps : List Step) (hcode : (ofSteps steps).code.length < 2 ^ 31 - 4)
    (hnames : (internedNames steps).length < 2 ^ 30)
    (hlengths : ∀ name ∈ internedNames steps, name.toList.length < 2 ^ 32) :
    ∃ program, Program.load (ofSteps steps).build = .ok program ∧
      program.image = (ofSteps steps).build ∧
      program.codeEnd = 4 + ((steps.flatMap Step.statements).map (·.encode.length)).sum ∧
      (program.image.extract 4 program.codeEnd).toList =
        (steps.flatMap Step.statements).flatMap Stmt.encode ∧
      program.names.size = (internedNames steps).length ∧
      (∀ name s, Interns steps name s → program.names.get? s =
        some (String.ofList (name.toList.map fun c => if c.toNat < 256 then c else '?'))) ∧
      ∀ s, (∀ name, ¬ Interns steps name s) → program.names.get? s = none := by
  have hassembled := assembled_ofSteps steps
  have hcount : (ofSteps steps).names.length = (internedNames steps).length := by
    rw [← map_fst_names_ofSteps, List.length_map]
  rw [← hcount] at hnames
  have hrecords : ∀ r ∈ (ofSteps steps).names, r.1.toList.length < 2 ^ 32 := by
    intro r hr
    refine hlengths r.1 ?_
    rw [← map_fst_names_ofSteps]
    exact List.mem_map_of_mem hr
  have hbytes : (ofSteps steps).code = (steps.flatMap Step.statements).flatMap Stmt.encode := by
    rw [code, statements_ofSteps, Stmt.encodeAll_eq_flatMap]
  have hload : Program.load (ofSteps steps).build =
      .ok ⟨(ofSteps steps).build, codeStart + (ofSteps steps).code.length,
        (ofSteps steps).nameTable⟩ := by
    rw [← program, program_eq hcode, hassembled.load_names hnames hrecords]
    rfl
  refine ⟨_, hload, rfl, ?_, ?_, ?_, fun name s hinterns => ?_, fun s hnone => ?_⟩
  · rw [hbytes, List.length_flatMap]
    rfl
  · -- The code stands behind the header, as long as it is.
    have hheld := (holds_code (ofSteps steps)).take_drop
    rw [← hbytes]
    simpa [codeStart] using hheld
  · rw [NameTable.size, nameTable, NameTable.ofRecords, List.length_map, hcount]
  · exact NameTable.get?_ofRecords (hassembled.numbered.pairwise_ne hnames)
      ((interns_iff steps).1 hinterns)
  · exact NameTable.get?_ofRecords_of_not_mem fun name hmem =>
      hnone name ((interns_iff steps).2 hmem)

/-- Two names, one of which is asked for again, and three statements. -/
def pricing : List Step :=
  [.symbol "x", .push (.declare false ⟨1⟩ none), .symbol "€", .symbol "x",
    .extend [.print (.variable ⟨1⟩), .breakLoop]]

/-- The name without bytes of its own comes back as a question mark, and a symbol that was not given
has no name. -/
theorem load_build_pricing :
    (ofSteps pricing).code.length < 2 ^ 31 - 4 ∧ (internedNames pricing).length < 2 ^ 30 ∧
      (∀ name ∈ internedNames pricing, name.toList.length < 2 ^ 32) ∧
      ∃ program, Program.load (ofSteps pricing).build = .ok program ∧ program.codeEnd = 18 ∧
        program.names.size = 2 ∧ program.names.get? ⟨1⟩ = some "x" ∧
        program.names.get? ⟨2⟩ = some "?" ∧ program.names.get? ⟨3⟩ = none := by
  have hcode : (ofSteps pricing).code.length < 2 ^ 31 - 4 := by decide
  have hnames : (internedNames pricing).length < 2 ^ 30 := by decide
  have hlengths : ∀ name ∈ internedNames pricing, name.toList.length < 2 ^ 32 := by decide
  refine ⟨hcode, hnames, hlengths, ?_⟩
  obtain ⟨program, hload, -, hend, -, hsize, hget, hnone⟩ :=
    load_build pricing hcode hnames hlengths
  refine ⟨program, hload, hend, hsize, ?_, ?_, ?_⟩
  · exact hget "x" ⟨1⟩ ⟨[], pricing.tail, rfl, rfl⟩
  · exact hget "€" ⟨2⟩ ⟨pricing.take 2, pricing.drop 3, rfl, by decide⟩
  · refine hnone ⟨3⟩ fun name hinterns => ?_
    have hmem := (interns_iff pricing).1 hinterns
    have hall : ∀ r ∈ (ofSteps pricing).names, r.2 ≠ ⟨3⟩ := by decide
    exact hall _ hmem rfl

end Builder

end Bytewalk
