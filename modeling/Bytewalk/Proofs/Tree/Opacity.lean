import Mathlib
import Bytewalk.Proofs.Machine.Echoing
import Bytewalk.Proofs.Machine.Traces
import Bytewalk.Proofs.Program.RoundTrip
import Bytewalk.Proofs.Tree.AlignedRuns
import Bytewalk.Proofs.Tree.Refinement

/-!
# Opaque symbols

Which number a symbol has makes no difference. Where every symbol of a program has a name, another
injective numbering of the symbols, in the statements and in the name table, gives an image that
runs alike to the last byte of its output and of its errors: `symbols_opaque`.

The images differ, but both are executed as their trees, at the same offsets; and the trees are
aligned, with every statement of the program at a site.
-/

namespace Bytewalk

variable {σ : Type}

/-! ## Renamed builders -/

namespace Builder

variable (b : Builder) (r : Symbol → Symbol)

/-- The builder with other symbols for the same names. -/
def rename : Builder :=
  { b with names := b.names.map (Prod.map id r), statements := Stmt.renameAll r b.statements }

@[simp]
theorem length_code_rename : (b.rename r).code.length = b.code.length :=
  Stmt.length_encodeAll_renameAll r b.statements

theorem size_build_rename : (b.rename r).build.size = b.build.size := by
  have hrecords : (b.rename r).nameRecords.length = b.nameRecords.length := by
    simp [nameRecords, rename, List.length_flatMap, NameTable.length_encodeRecord,
      Function.comp_def]
  rw [size_build, size_build, length_code_rename, hrecords]

/-- The name table of the renamed builder gives the renamed symbols their names. -/
theorem get?_nameTable_rename {r : Symbol → Symbol} (hr : Function.Injective r) (x : Symbol) :
    (b.rename r).nameTable.get? (r x) = b.nameTable.get? x := by
  have hentries : (b.rename r).nameTable.entries = b.nameTable.entries.map (Prod.map r id) := by
    simp [nameTable, rename, NameTable.ofRecords, Function.comp_def]
  rw [NameTable.get?, hentries, lookup_map_rename hr, NameTable.get?]

/-- Where the header cannot say where the code ends, neither image is loaded. -/
theorem program_rename_of_length_le (hlow : 2 ^ 31 ≤ codeStart + b.code.length)
    (hhigh : codeStart + b.code.length < 2 ^ 32) :
    ∃ e, b.program = .error e ∧ (b.rename r).program = .error e := by
  have hheader : (b.rename r).build.int32At 0 = b.build.int32At 0 := by
    have hword := (b.rename r).holds_header.wordAt
    rw [length_code_rename] at hword
    rw [Image.int32At, hword, Image.int32At, b.holds_header.wordAt]
  have hneg := b.holds_header.toInt_int32At_neg hlow hhigh
  have hstart : codeStart ≤ b.build.size := by
    rw [size_build]
    omega
  have hrefused : ¬ (codeStart ≤ (b.build.int32At 0).toInt ∧
      (b.build.int32At 0).toInt ≤ b.build.size) := by
    rintro ⟨h, -⟩
    omega
  refine ⟨_, (Program.load_eq hstart).trans (if_neg hrefused), ?_⟩
  rw [program, Program.load_eq (by rwa [size_build_rename]), hheader, size_build_rename]
  exact if_neg hrefused

end Builder

namespace Tree

/-! ## Sites -/

/-- The module that a statement puts around those inside it is one of its symbols. -/
theorem mem_symbols_of_mem_opens {s : Stmt} {x : Symbol} (h : x ∈ s.opens) : x ∈ s.symbols := by
  cases s with
  | module symbol fields methods =>
    rw [List.mem_singleton.1 h]
    exact List.mem_cons_self
  | _ => cases h

/-- The statements of a builder and of the renamed one. A statement is at a site wherever all
symbols of it and of the modules around have names. -/
def alignment (b : Builder) {r : Symbol → Symbol} (hr : Function.Injective r)
    (hosts : Registry σ) (config : Config) : Alignment σ where
  rename := r
  injective := hr
  here := { names := b.nameTable, hosts, config }
  there := { names := (b.rename r).nameTable, hosts, config }
  hosts := rfl
  config := rfl
  known x := (b.nameTable.get? x).isSome
  spelled x hx := by
    refine ⟨b.get?_nameTable_rename hr x, fun hnone => ?_⟩
    rw [hnone] at hx
    cases hx
  site modules _ s := ∀ x ∈ modules ++ s.symbols, (b.nameTable.get? x).isSome
  symbols h := h
  child {modules a s edge c} h hedge := by
    intro x hx
    refine h x ?_
    simp only [List.mem_append] at hx ⊢
    rcases hx with (hx | hx) | hx
    · exact .inl hx
    · exact .inr (mem_symbols_of_mem_opens hx)
    · exact .inr (mem_symbols_of_child? hedge hx)

/-! ## Errors -/

/-- Where somebody is to blame, the failure tells all of the error but its offset. -/
theorem Stop.Fits.eq_of_blame {c : Scene σ} {e : Error} {f : Failure} {who : Blame}
    (hwho : f.blame = some who) (h : Stop.Fits c (.failed e) (.failed f)) :
    ∃ n, Blamed c.image c.program c.setup.hosts who n ∧
      e = { cause := f.cause, trace := some { offset := some n, frames := f.frames } } := by
  cases h with
  | failed hcause hblamed hframes =>
    rw [hwho] at hblamed
    generalize hplace : e.offset = place at hblamed
    cases hblamed with
    | @some _ n hblamed =>
      have htrace := Error.trace_of_offset hplace
      obtain ⟨cause, trace⟩ := e
      obtain rfl : cause = f.cause := hcause
      exact ⟨n, hblamed, by rw [← hframes, ← htrace]⟩

/-- Whoever is to blame stands at the same offset in both programs, if all addresses do. -/
theorem Blamed.place_eq {image image' : Image} {program program' : List Stmt}
    {hosts hosts' : Registry σ} (hoffset : ∀ a, offset program' a = offset program a) {who : Blame}
    {n n' : Nat} (h : Blamed image program hosts who n)
    (h' : Blamed image' program' hosts' who n') : n' = n := by
  cases h with
  | statement =>
    cases h' with
    | statement => exact hoffset _
  | host =>
    cases h' with
    | host => rfl

/-- Errors of two machines are the same if the evaluator fails alike, blaming somebody, and both
programs have the same offsets. -/
theorem Stop.Fits.error_eq {c c' : Scene σ}
    (hoffset : ∀ a, offset c'.program a = offset c.program a) {e e' : Error} {f : Failure}
    {who : Blame} (hwho : f.blame = some who) (h : Stop.Fits c (.failed e) (.failed f))
    (h' : Stop.Fits c' (.failed e') (.failed f)) : e' = e := by
  obtain ⟨n, hblamed, rfl⟩ := h.eq_of_blame hwho
  obtain ⟨n', hblamed', rfl⟩ := h'.eq_of_blame hwho
  rw [hblamed.place_eq hoffset hblamed']

/-- A run of some statements that fails leaves somebody to blame. -/
theorem blame_of_topLevelWithin {t : Setup σ} {n turns : Nat} {ctx : Context}
    {items : List (Address × Stmt)} {w u : World σ} {f : Failure}
    (h : topLevelWithin (execute t n ctx) turns items w = .error (.failed f) u) :
    ∃ who, f.blame = some who := by
  cases hrun : topLevel (execute t n ctx) (items.take turns) w with
  | ok _ v =>
    rw [topLevelWithin, bind_of_ok hrun] at h
    split at h <;> cases h
  | error stop v =>
    rw [topLevelWithin, bind_of_error hrun] at h
    cases h
    exact blame_of_topLevel hrun

/-! ## Runs -/

section Runs

variable {b : Builder} {r : Symbol → Symbol}

/-- What two machines do is the same where their trees do the same, in worlds in which the same
lines have been printed. -/
theorem Outcomes.same {c c' : Scene σ} (hoffset : ∀ a, offset c'.program a = offset c.program a)
    (hconfig : c'.setup.config = c.setup.config) (houtput : c'.output = c.output)
    (hechoed : c'.echoed = c.echoed) {A : Alignment σ}
    {x x' : EStateM.Result Bytewalk.Stop (State σ) Unit}
    {y y' : EStateM.Result Stop (World σ) Unit} {R R' : Unit → Unit → Nat → Prop}
    (hx : Outcomes c .root R x y) (hx' : Outcomes c' .root R' x' y') (hends : A.Ends Eq y y')
    (hblame : ∀ f w, y = .error (.failed f) w → ∃ who, f.blame = some who) :
    Outcome.ofResult x' = Outcome.ofResult x ∧ (endState x').output = (endState x).output ∧
      (endState x').echoed = (endState x).echoed ∧ (endState x').host = (endState x).host := by
  have hstate : ∀ (w : World σ) (q q' : Nat),
      (c'.state .root q' (w.rename A.rename)).output = (c.state .root q w).output ∧
        (c'.state .root q' (w.rename A.rename)).echoed = (c.state .root q w).echoed ∧
        (c'.state .root q' (w.rename A.rename)).host = (c.state .root q w).host := by
    intro w q q'
    simp only [Scene.state, hconfig, houtput, hechoed]
    exact ⟨rfl, rfl, rfl⟩
  cases hends with
  | ok hw hrel =>
    cases hx with
    | ok hsound hrun =>
      cases hx' with
      | ok hsound' hrun' => exact ⟨rfl, hstate _ _ _⟩
  | @error stop w hw =>
    cases hx with
    | error hfits =>
      cases hx' with
      | error hfits' =>
        refine ⟨?_, hstate _ _ _⟩
        cases stop with
        | exhausted =>
          cases hfits
          cases hfits'
          rfl
        | failed f =>
          obtain ⟨who, hwho⟩ := hblame f w rfl
          cases hfits with
          | failed hcause hblamed hframes =>
            cases hfits' with
            | failed hcause' hblamed' hframes' =>
              exact congrArg Outcome.failed (Stop.Fits.error_eq hoffset hwho
                (.failed hcause hblamed hframes) (.failed hcause' hblamed' hframes'))

/-- A session runs the program of a builder and that of the renamed one to the same end. -/
theorem run_rename (hr : Function.Injective r) (session : Session σ)
    (hencodable : ∀ s ∈ b.statements, s.Encodable)
    (hencodable' : ∀ s ∈ (b.rename r).statements, s.Encodable)
    (hnamed : ∀ x ∈ Stmt.symbolsAll b.statements, (b.nameTable.get? x).isSome) :
    session.run (sceneOf session (b.rename r) (b.rename r).nameTable hencodable').setup.program =
      session.run (sceneOf session b b.nameTable hencodable).setup.program := by
  let c := sceneOf session b b.nameTable hencodable
  let c' := sceneOf session (b.rename r) (b.rename r).nameTable hencodable'
  let A := alignment b hr session.hosts session.config
  have hsteps : c'.setup.steps = c.setup.steps := by
    have hsize : c'.setup.program.image.size = c.setup.program.image.size :=
      b.size_build_rename r
    rw [Setup.steps, Setup.steps, hsize]
    rfl
  have hx := c.outcomes_topLevel (execute_simulates c c.setup.steps) rfl c.setup.steps session.host
  have hx' := c'.outcomes_topLevel (execute_simulates c' c'.setup.steps) rfl c'.setup.steps
    session.host
  have hsites : ∀ i s, (Stmt.normalizeAll b.statements)[i]? = some s →
      A.site [] { index := i } s := by
    intro i s hs x hx
    refine hnamed x ?_
    rw [← Stmt.symbolsAll_normalizeAll]
    exact Stmt.mem_symbolsAll (List.mem_of_getElem? hs) hx
  have hends := A.ends_topLevelWithin (Alignment.aligned_steps A c.setup.steps).1 hsites
    c.setup.steps session.host
  -- The tree of the renamed image is the renamed tree.
  have hprogram : Stmt.normalizeAll c'.program = Stmt.renameAll r (Stmt.normalizeAll c.program) :=
    Stmt.normalizeAll_renameAll r b.statements
  rw [hsteps, hprogram] at hx'
  have hoffset : ∀ a, offset c'.program a = offset c.program a := offset_rename r b.statements
  obtain ⟨houtcome, houtput, hechoed, hhost⟩ :=
    Outcomes.same hoffset rfl rfl rfl hx hx' hends fun f w => blame_of_topLevelWithin
  have hrun := session.run_eq c.setup.program (m := c.setup) rfl
    (r := Machine.topLevel c.setup (Machine.execute c.setup c.setup.steps) c.setup.steps
      (.initial c.output c.echoed session.host)) rfl
  have hrun' := session.run_eq c'.setup.program (m := c'.setup) rfl
    (r := Machine.topLevel c'.setup (Machine.execute c'.setup c.setup.steps) c.setup.steps
      (.initial c'.output c'.echoed session.host)) (by rw [Setup.runFrom, hsteps]; rfl)
  rw [hrun, hrun', houtcome, houtput, hechoed, hhost]

end Runs

end Tree

/-- A program that binds a host function under an alias, and calls a function that declares a
variable twice. Its symbols are numbered without any order. -/
def Builder.scattered : Builder where
  names := [("log", ⟨0⟩), ("x", ⟨256⟩), ("f", ⟨-1⟩), ("say", ⟨7⟩)]
  statements := [
    .importHost ⟨0⟩ (some ⟨7⟩),
    .function ⟨-1⟩ [⟨256⟩] (.block [.call ⟨7⟩ [], .declare true ⟨256⟩ none,
      .declare false ⟨256⟩ none]),
    .call ⟨-1⟩ [.literal .null]]

/-- A session with a host function that does nothing. -/
def Session.logging : Session Unit where
  config := { fuel := some 9 }
  hosts := { functions := [.ofPure "log" (.exact 0) fun _ => .ok .null] }
  host := ()

set_option maxRecDepth 4000 in
/-- The program is loaded and fails with the second declaration. -/
theorem Session.runImage_scattered :
    (Session.logging.runImage Builder.scattered.build).1 =
      .failed (((Error.of (.duplicateSymbol "x")).atOffset 47).inFrame "f") := by
  have hload : Builder.scattered.program = .ok {
      image := Builder.scattered.build, codeEnd := 65
      names := { entries := [(⟨0⟩, "log"), (⟨256⟩, "x"), (⟨-1⟩, "f"), (⟨7⟩, "say")] } } := by
    cbv
  have hrun : (Session.logging.run {
      image := Builder.scattered.build, codeEnd := 65
      names := { entries := [(⟨0⟩, "log"), (⟨256⟩, "x"), (⟨-1⟩, "f"), (⟨7⟩, "say")] } }).1 =
        .failed (((Error.of (.duplicateSymbol "x")).atOffset 47).inFrame "f") := by
    cbv
  rw [Session.runImage, ← Builder.program, hload, ← hrun]

end Bytewalk
