import Bytewalk.Proofs.Code.PassEncoding
import Bytewalk.Proofs.Machine.Equations
import Bytewalk.Proofs.Program.RoundTrip

/-!
# Interned names

A name has one symbol, whatever happens between the calls that ask for it, and no two names share
one. The symbols are numbered in the order in which the names are first used. A number with a zero
in its lowest byte is left out, since an import reads a zero there as the absence of an alias. What
is given for a name can therefore stand as the alias of an import, which is passed over and executed
with all of its bytes.

`symbols_interned` is the main result. It rests on `interns_iff_symbolAt`, which says in closed form
what a sequence of calls interns.
-/

namespace Bytewalk

open Decoder

/-! ## What the calls intern -/

namespace Builder

/-- The lowest byte of a number is not zero. -/
theorem isMarked_symbolAt (i : Nat) : (symbolAt i).IsMarked := by
  rw [Symbol.IsMarked, symbolAt, toNat_ofNat_mod, numberAt]
  -- Of 256 numbers in a row, 255 are taken.
  omega

example : symbolAt 254 = ⟨255⟩ ∧ symbolAt 255 = ⟨257⟩ := by decide

/-- No name is listed twice. -/
theorem Assembled.nodup {b : Builder} (h : b.Assembled) : (b.names.map (·.1)).Nodup := by
  induction h with
  | empty => exact List.nodup_nil
  | @symbol b _ name ih =>
    rw [names_symbol]
    by_cases hmem : name ∈ b.names.map (·.1)
    · rwa [if_pos hmem]
    · rw [if_neg hmem, List.map_append]
      exact List.concat_eq_append ▸ ih.concat hmem
  | push _ _ ih | extend _ _ ih => exact ih

variable {steps : List Step} {name : String} {s : Symbol}

theorem nodup_internedNames (steps : List Step) : (internedNames steps).Nodup := by
  rw [← map_fst_names_ofSteps]
  exact (assembled_ofSteps steps).nodup

/-- The names and their symbols stand side by side. -/
theorem names_ofSteps (steps : List Step) :
    (ofSteps steps).names =
      (internedNames steps).zip ((List.range (internedNames steps).length).map symbolAt) := by
  have hnames := map_fst_names_ofSteps steps
  refine List.zip_of_prod hnames ?_
  rw [(assembled_ofSteps steps).numbered.symbols, ← hnames, List.length_map]

/-- The symbol of a name is told by how many names have been used before it. -/
theorem interns_iff_symbolAt :
    Interns steps name s ↔ ∃ i, (internedNames steps)[i]? = some name ∧ symbolAt i = s := by
  rw [interns_iff, names_ofSteps, List.mem_iff_getElem?]
  refine exists_congr fun i => ?_
  rw [List.getElem?_zip_eq_some, List.getElem?_map]
  refine and_congr_right fun hname => ?_
  rw [List.getElem?_range (List.getElem?_eq_some_iff.1 hname).1, Option.map_some, Option.some.injEq]

/-- A name is used for the first time only once. -/
theorem index_unique {i j : Nat} (hi : (internedNames steps)[i]? = some name)
    (hj : (internedNames steps)[j]? = some name) : i = j :=
  (List.getElem?_inj (List.getElem?_eq_some_iff.1 hi).1 (nodup_internedNames steps)).1
    (hi.trans hj.symm)

/-- The number of a symbol is told by how many names have been used before its own. -/
theorem Interns.toInt_eq (h : Interns steps name s) (hnames : (internedNames steps).length < 2 ^ 30)
    {i : Nat} (hi : (internedNames steps)[i]? = some name) : s.id.toInt = numberAt i := by
  obtain ⟨j, hj, rfl⟩ := interns_iff_symbolAt.1 h
  rw [← index_unique hi hj]
  exact toInt_symbolAt ((List.getElem?_eq_some_iff.1 hi).1.trans hnames)

theorem Interns.isMarked (h : Interns steps name s) : s.IsMarked := by
  obtain ⟨i, -, rfl⟩ := interns_iff_symbolAt.1 h
  exact isMarked_symbolAt i

theorem Interns.eq_iff {name' : String} {s' : Symbol} (h : Interns steps name s)
    (h' : Interns steps name' s') (hnames : (internedNames steps).length < 2 ^ 30) :
    s = s' ↔ name = name' := by
  obtain ⟨i, hi, hs⟩ := interns_iff_symbolAt.1 h
  obtain ⟨j, hj, hs'⟩ := interns_iff_symbolAt.1 h'
  constructor
  · intro heq
    -- The number tells how many names have been used before, and so which name it is.
    have hnumber : numberAt i = numberAt j := by
      have hids := congrArg (fun s : Symbol => s.id.toInt) heq
      rw [h.toInt_eq hnames hi, h'.toInt_eq hnames hj] at hids
      exact Int.ofNat.inj hids
    rw [numberAt_strictMono.injective hnumber] at hi
    exact Option.some.inj (hi.symm.trans hj)
  · rintro rfl
    rw [← hs, ← hs', index_unique hi hj]

end Builder

/-! ## Imports under another symbol -/

namespace Machine

variable {σ : Type} {m : Setup σ} {source target : Symbol} {s : State σ}

/-- A second symbol that is marked is read where it stands, and the host function is bound under
it. -/
theorem importHost_of_holds (htarget : target.IsMarked)
    (hbytes : m.program.image.Holds s.position (Word.ofSymbol source ++ Word.ofSymbol target)) :
    importHost m s = bindHost m source target { s with position := s.position + 8 } := by
  have hright := hbytes.right
  rw [Word.length_ofSymbol] at hright
  rw [importHost_eq]
  refine (bind_of_ok (Exec.decode_of_ok s (symbol_of_holds hbytes.left))).trans ?_
  refine (bind_of_ok (Exec.decode_of_ok _
    (present_of_ne_zero (htarget.byteAt_ne_zero hright)))).trans ?_
  exact bind_of_ok (Exec.decode_of_ok _ (symbol_of_holds hright))

/-- A host function that has the name of the source is bound under the target, unless the scope
binds the target already. -/
theorem bindHost_eq {name : String} {f : HostFunction σ}
    (hname : m.program.names.get? source = some name) (hhost : m.hosts.get? name = some f)
    (hfree : s.store.bindsLocally s.scope target = false) :
    bindHost m source target s = .ok .normal { s with
      store := (s.store.bind s.scope target (.host ⟨s.modules, target⟩ f)).2 } := by
  rw [bindHost, hname]
  dsimp only
  rw [hhost]
  have hbind : Exec.bindHere m.program.names target (.host ⟨s.modules, target⟩ f) s =
      .ok () { s with store := (s.store.bind s.scope target (.host ⟨s.modules, target⟩ f)).2 } := by
    rw [Exec.bindHere_eq, Exec.bindIn, hfree]
    rfl
  exact (bind_of_ok (Exec.qualify_eq s target)).trans (bind_of_ok hbind)

variable (m source target) in
/-- Wherever in the image the import of one symbol under another stands, it counts with all of its
bytes and with the other symbol. -/
structure ImportsUnder : Prop where
  /-- Passing over the import ends behind the other symbol. -/
  passed : ∀ p, m.program.image.Holds p (Stmt.importHost source (some target)).encode →
    passStatement m.program.image p =
      .ok () (p + (Stmt.importHost source (some target)).encode.length)
  /-- Executing the import goes on behind the other symbol, and binds the host function under it. -/
  executed : ∀ (s : State σ) (n : Nat),
    m.program.image.Holds s.position (Stmt.importHost source (some target)).encode →
    execute m (n + 1) s = Exec.mapError (·.atOffset s.position) (do
      countStatement m
      Exec.seek (s.position + (Stmt.importHost source (some target)).encode.length)
      bindHost m source target) s
  /-- If nothing forbids it, the host function is then bound there. -/
  bound : ∀ (s : State σ) (n : Nat) (name : String) (f : HostFunction σ),
    m.program.image.Holds s.position (Stmt.importHost source (some target)).encode →
    (∀ limit, m.config.fuel = some limit → s.executed < limit) →
    m.program.names.get? source = some name → m.hosts.get? name = some f →
    s.store.bindsLocally s.scope target = false →
    execute m (n + 1) s = .ok .normal { s with
      position := s.position + (Stmt.importHost source (some target)).encode.length
      executed := s.executed + 1
      store := (s.store.bind s.scope target (.host ⟨s.modules, target⟩ f)).2 }

/-- An import is counted, and goes on behind its second symbol if this is marked. -/
theorem execute_importHost (htarget : target.IsMarked) (n : Nat)
    (hbytes : m.program.image.Holds s.position (Stmt.importHost source (some target)).encode) :
    execute m (n + 1) s = Exec.mapError (·.atOffset s.position) (do
      countStatement m
      Exec.seek (s.position + 9)
      bindHost m source target) s := by
  have hop : StatementOp.ofByte? (m.program.image.byteAt s.position) = some .importHost := by
    rw [hbytes.byteAt, StatementOp.ofByte?_byte]
  refine (statement_of_opcode hop).trans (Exec.mapError_congr ?_)
  refine bind_eq_bind rfl fun _ t ht => ?_
  obtain rfl := countStatement_eq_ok ht
  -- Behind the opcode, both symbols are eight bytes more.
  exact importHost_of_holds htarget hbytes.tail

/-- An import counts with every symbol that is marked. -/
theorem importsUnder_of_isMarked (m : Setup σ) (source : Symbol) (htarget : target.IsMarked) :
    ImportsUnder m source target where
  passed p hbytes := by
    have hencodable : (Stmt.importHost source (some target)).Encodable :=
      .importHost fun s hs => by cases hs; exact htarget
    exact hencodable.fills p hbytes
  executed s n hbytes := execute_importHost htarget n hbytes
  bound s n name f hbytes hfuel hname hhost hfree := by
    have hinner : (do
        countStatement m
        Exec.seek (s.position + 9)
        bindHost m source target) s = _ :=
      (bind_of_ok (countStatement_of_lt hfuel)).trans (bindHost_eq hname hhost hfree)
    rw [execute_importHost htarget n hbytes, Exec.mapError, hinner]
    rfl

end Machine

/-! ## Symbols -/

namespace Builder

/-- Symbols are interned. Two calls are given the same symbol if and only if they ask for the same
name, whenever they are made and whatever is added between them. The name that is the `n`-th to be
used for the first time has the number `n + (n - 1) / 255`. So the numbers are positive, they
increase in the order of first use, and none of them has a zero in its lowest byte. For this reason
every import under one of these symbols is passed over and executed with all of its bytes. -/
theorem symbols_interned {σ : Type} (steps : List Step)
    (hnames : (internedNames steps).length < 2 ^ 30) (m : Setup σ) :
    (∀ name name' s s', Interns steps name s → Interns steps name' s' →
      (s = s' ↔ name = name')) ∧
    (∀ n name s, 1 ≤ n → (internedNames steps)[n - 1]? = some name → Interns steps name s →
      s.id.toInt = (n + (n - 1) / 255 : Nat)) ∧
    (∀ name s, Interns steps name s → 0 < s.id.toInt ∧ s.IsMarked) ∧
    (∀ (i j : Nat) name name' s s', i < j →
      (internedNames steps)[i]? = some name → (internedNames steps)[j]? = some name' →
      Interns steps name s → Interns steps name' s' → s.id.toInt < s'.id.toInt) ∧
    ∀ source name s, Interns steps name s → Machine.ImportsUnder m source s := by
  refine ⟨fun name name' s s' h h' => h.eq_iff h' hnames, fun n name s hn hname h => ?_,
    fun name s h => ⟨?_, h.isMarked⟩, fun i j name name' s s' hlt hi hj h h' => ?_,
    fun source name s h => Machine.importsUnder_of_isMarked m source h.isMarked⟩
  · rw [h.toInt_eq hnames hname, numberAt, Nat.sub_add_cancel hn]
  · obtain ⟨i, hi, -⟩ := interns_iff_symbolAt.1 h
    rw [h.toInt_eq hnames hi, numberAt]
    omega
  · rw [h.toInt_eq hnames hi, h'.toInt_eq hnames hj]
    exact Int.ofNat_lt.2 (numberAt_strictMono hlt)

/-- A host function is imported under another name, and both names are asked for twice. -/
def aliasing : List Step :=
  [.symbol "clock", .symbol "now", .push (.importHost ⟨1⟩ (some ⟨2⟩)), .symbol "clock",
    .extend [.call ⟨2⟩ [], .breakLoop], .symbol "now"]

/-- The name that is asked for last has been the second one, and the function is bound under it. -/
theorem symbols_interned_aliasing :
    let f : HostFunction Unit := .ofPure "clock" (.exact 0) fun _ => .ok .null
    let m : Setup Unit := {
      program := {
        image := (ofSteps aliasing).build, codeEnd := 20, names := (ofSteps aliasing).nameTable }
      hosts := { functions := [f] }, config := {} }
    (internedNames aliasing).length < 2 ^ 30 ∧
      (∀ s, Interns aliasing "now" s → s = ⟨2⟩) ∧ passStatement m.program.image 4 = .ok () 13 ∧
      ∃ t, Machine.execute m 1 (State.initial #[] #[] ()) = .ok .normal t ∧ t.position = 13 ∧
        (t.store.lookup? t.scope ⟨2⟩).isSome := by
  intro f m
  have hnames : (internedNames aliasing).length < 2 ^ 30 := by decide
  obtain ⟨hsame, -, -, -, himports⟩ := symbols_interned aliasing hnames m
  have hlast : Interns aliasing "now" ⟨2⟩ := ⟨aliasing.take 5, [], rfl, by decide⟩
  have himport := himports ⟨1⟩ "now" ⟨2⟩ hlast
  have hbytes : m.program.image.Holds 4 (Stmt.importHost ⟨1⟩ (some ⟨2⟩)).encode :=
    (holds_code (ofSteps aliasing)).left
  refine ⟨hnames, fun s h => (hsame _ _ _ _ h hlast).2 rfl, himport.passed 4 hbytes, _,
    himport.bound _ 0 "clock" f hbytes (fun limit h => by cases h) ?_ ?_ rfl, rfl, ?_⟩
  · decide
  · rfl
  · rfl

end Builder

end Bytewalk
