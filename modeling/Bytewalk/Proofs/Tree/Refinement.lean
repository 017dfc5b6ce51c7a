import Mathlib
import Bytewalk.Proofs.Machine.Sessions
import Bytewalk.Proofs.Machine.Termination
import Bytewalk.Proofs.Program.Assembly
import Bytewalk.Proofs.Tree.RunSimulation
import Bytewalk.Proofs.Tree.Steps

/-!
# Assembled programs mean their trees

The machine walks the bytes of an image, and the evaluator of trees knows no bytes. On the image
of a builder both print the same lines and end alike: `run_refines`. A failure for which the
evaluator blames a statement has the offset of this statement in the image.
-/

namespace Bytewalk

variable {σ : Type}

namespace Tree

/-! ## Blame -/

/-- A statement that fails leaves somebody to blame. -/
theorem blame_of_execute {t : Setup σ} {n : Nat} {ctx : Context} {a : Address} {s : Stmt}
    {w u : World σ} {f : Failure} (h : execute t n ctx a s w = .error (.failed f) u) :
    ∃ who, f.blame = some who := by
  cases n with
  | zero => cases h
  | succ n =>
    rw [execute, statement, Eval.mapFailure] at h
    split at h
    · cases h
      exact ⟨_, rfl⟩
    · rename_i hfailed
      exact absurd h (hfailed f u)

/-- A run that fails leaves somebody to blame. -/
theorem blame_of_topLevel {t : Setup σ} {n : Nat} {ctx : Context} {items : List (Address × Stmt)}
    {w u : World σ} {f : Failure}
    (h : topLevel (execute t n ctx) items w = .error (.failed f) u) :
    ∃ who, f.blame = some who := by
  induction items generalizing w with
  | nil => cases h
  | cons item rest ih =>
    obtain ⟨a, s⟩ := item
    rw [topLevel] at h
    cases hfirst : execute t n ctx a s w with
    | error stop v =>
      rw [bind_of_error hfirst] at h
      cases h
      exact blame_of_execute hfirst
    | ok flow v =>
      rw [bind_of_ok hfirst] at h
      cases flow with
      | normal => exact ih h
      | breakLoop | returnValue =>
        -- The signal leads out of the statement, which is to blame for it.
        cases h
        exact ⟨_, rfl⟩

/-! ## Refinement -/

/-- The session behind a run that ends in a world: the lines are collected or echoed behind those
of earlier runs. -/
def World.leave (w : World σ) (session : Session σ) : Session σ :=
  { session with
    output := if session.config.echo then session.output else session.output ++ w.lines
    echoed := if session.config.echo then session.echoed ++ w.lines else session.echoed
    host := w.host }

/-- A run of the machine ends as a run of the evaluator does, and an error has the offset of
whoever is to blame. -/
inductive Matches (image : Image) (program : List Stmt) (session : Session σ) :
    Outcome × Session σ → EStateM.Result Stop (World σ) Unit → Prop
  | finished {w : World σ} :
      Matches image program session (.finished, w.leave session) (.ok () w)
  | failed {e : Error} {f : Failure} {w : World σ} {who : Blame} {place : Nat}
      (hcause : e.cause = f.cause) (hframes : e.frames = f.frames)
      (hwho : f.blame = some who) (hplace : e.offset = some place)
      (hblamed : Blamed image program session.hosts who place) :
      Matches image program session (.failed e, w.leave session) (.error (.failed f) w)

theorem Matches.not_exhausted {image : Image} {program : List Stmt} {session : Session σ}
    {ending : Outcome × Session σ} {w : World σ} :
    ¬ Matches image program session ending (.error .exhausted w) := by
  intro h
  cases h

/-- Where the number of statements is limited, there are steps for every statement of the program,
so that the machine and the evaluator go in lockstep to the end of the code. -/
theorem Scene.outcomes_run (c : Scene σ) {limit : Nat} (hfuel : c.setup.config.fuel = some limit)
    (hend : codeStart + (Stmt.encodeAll c.program).length = c.setup.program.codeEnd) (host : σ) :
    Outcomes c .root (fun _ _ _ => True)
      (c.setup.runFrom c.setup.steps (.initial c.output c.echoed host))
      (run c.trees c.setup.steps (Stmt.normalizeAll c.program) host) := by
  have hlength : c.program.length ≤ c.setup.steps := by
    have hstatements := Stmt.length_le_encodeAll c.program
    have hbytes := c.holds.length_le_remaining
    rw [Image.remaining] at hbytes
    rw [Setup.steps, hfuel]
    exact Nat.le_trans (by omega) (Nat.le_mul_of_pos_left _ (Nat.succ_pos limit))
  have hrun := c.outcomes_topLevel (execute_simulates c c.setup.steps) hend c.setup.steps host
  rwa [topLevelWithin_of_length_le (by simpa using hlength)] at hrun

/-- A session runs the image of a builder. -/
def sceneOf (session : Session σ) (b : Builder) (names : NameTable)
    (hencodable : ∀ s ∈ b.statements, s.Encodable) : Scene σ where
  setup := {
    program := { image := b.build, codeEnd := codeStart + b.code.length, names }
    hosts := session.hosts
    config := session.config }
  program := b.statements
  output := session.output
  echoed := session.echoed
  holds := b.holds_code
  encodable := hencodable

/-- The session runs the image as the evaluator runs the statements with as many steps. -/
theorem matches_sceneOf (session : Session σ) {limit : Nat}
    (hfuel : session.config.fuel = some limit) (b : Builder) (names : NameTable)
    (hencodable : ∀ s ∈ b.statements, s.Encodable) :
    let c := sceneOf session b names hencodable
    Matches b.build b.statements session (session.run c.setup.program)
      (run c.trees c.setup.steps (Stmt.normalizeAll b.statements) session.host) := by
  intro c
  have houtcomes := c.outcomes_run hfuel rfl session.host
  have hblame : ∀ f w, run c.trees c.setup.steps (Stmt.normalizeAll c.program) session.host =
      .error (.failed f) w → ∃ who, f.blame = some who := fun f w => blame_of_topLevel
  have hexhausted := c.setup.runFrom_ne_exhausted hfuel
    (s := .initial c.output c.echoed session.host) (Nat.zero_le limit)
  -- Both runs are given names, so that the cases are the ways in which they end together.
  generalize hrun : c.setup.runFrom c.setup.steps (.initial c.output c.echoed session.host) =
    execution at houtcomes hexhausted
  change Matches _ _ _ _ (run c.trees c.setup.steps (Stmt.normalizeAll c.program) session.host)
  generalize run c.trees c.setup.steps (Stmt.normalizeAll c.program) session.host = evaluation
    at houtcomes hblame ⊢
  have hended := session.run_eq c.setup.program (m := c.setup) rfl hrun
  rw [hended]
  cases houtcomes with
  | ok hsound hrel => exact .finished
  | @error stop stop' q w hfits =>
    cases hfits with
    | exhausted => exact absurd rfl (hexhausted _)
    | @failed e f hcause hblamed hframes =>
      obtain ⟨who, hwho⟩ := hblame f w rfl
      rw [hwho] at hblamed
      generalize hplace : e.offset = place at hblamed
      cases hblamed with
      | some hblamed => exact .failed hcause hframes hwho hplace hblamed

/-- For every builder whose statements can be encoded and whose code is short enough for a header:

- if it has been assembled from nothing, with fewer than 2³⁰ names that are short enough for their
  lengths, then its image is loaded, and its names are read back;
- if its image is loaded, then every run with a limit on statements ends as the evaluator of trees
  does on the normalized statements, which with steps enough always ends in the same way: both
  print the same lines and leave the host in the same state, both finish or both fail, and then
  with the same cause and in the same functions. The error has the offset at which the image holds
  the statement that the evaluator blames, or the offset that a host function has given it. -/
theorem run_refines (b : Builder) (hcode : b.code.length < 2 ^ 31 - 4)
    (hencodable : ∀ s ∈ b.statements, s.Encodable) :
    (b.Assembled → b.names.length < 2 ^ 30 → (∀ r ∈ b.names, r.1.toList.length < 2 ^ 32) →
      ∃ program, b.program = .ok program ∧ program.names = b.nameTable) ∧
    ∀ (program : Program) (session : Session σ) (limit : Nat),
      b.program = .ok program → session.config.fuel = some limit →
      let t : Setup σ :=
        { names := program.names, hosts := session.hosts, config := session.config }
      ∃ steps, ∀ k, steps ≤ k →
        Matches b.build b.statements session (session.run program)
          (run t k (Stmt.normalizeAll b.statements) session.host) := by
  constructor
  · intro hassembled hnames hlengths
    rw [Builder.program_eq hcode, hassembled.load_names hnames hlengths]
    exact ⟨_, rfl, rfl⟩
  · intro program session limit hload hfuel t
    obtain ⟨names, rfl⟩ := Builder.eq_of_program hcode hload
    let c := sceneOf session b names hencodable
    have hmatches : Matches b.build b.statements session (session.run c.setup.program)
        (run t c.setup.steps (Stmt.normalizeAll b.statements) session.host) :=
      matches_sceneOf session hfuel b names hencodable
    -- The steps of the machine suffice for the evaluator, which then stays the same with more.
    refine ⟨c.setup.steps, fun k hk => ?_⟩
    rw [run_extends t hk]
    · exact hmatches
    · intro u hexhausted
      rw [hexhausted] at hmatches
      exact hmatches.not_exhausted

/-- A program that prints a text and then declares a variable twice. -/
def twice : Builder :=
  (Builder.empty.symbol "x").2.extend [.print (.literal (.text "€")), .declare false ⟨1⟩ none,
    .declare false ⟨1⟩ none]

/-- The program is loaded; where it is run, the second declaration is to blame. -/
theorem run_twice :
    let session : Session Unit := { config := { fuel := some 9 }, host := () }
    ∃ program, twice.program = .ok program ∧ program.names = twice.nameTable ∧
      (∃ e, (session.run program).1 = .failed e ∧
        e.offset = some (offset twice.statements { index := 2 })) ∧
      ∃ steps, ∀ k, steps ≤ k →
        Matches twice.build twice.statements session (session.run program)
          (run { names := program.names, hosts := session.hosts, config := session.config } k
            (Stmt.normalizeAll twice.statements) ()) := by
  intro session
  have hencodable : ∀ s ∈ twice.statements, s.Encodable := by
    intro s hs
    have hmem : s ∈ [Stmt.print (.literal (.text "€")), .declare false ⟨1⟩ none,
      .declare false ⟨1⟩ none] := hs
    simp only [List.mem_cons, List.not_mem_nil, or_false] at hmem
    rcases hmem with rfl | rfl | rfl
    · exact .print (.literal _)
    · exact .declare fun e he => by cases he
    · exact .declare fun e he => by cases he
  have h := @run_refines Unit twice (by decide) hencodable
  obtain ⟨program, hload, hnames⟩ := h.1 (.extend (.symbol .empty "x") _) (by decide) (by decide)
  refine ⟨program, hload, hnames, ?_, h.2 program session 9 hload rfl⟩
  have hprogram : twice.program = .ok {
      image := twice.build, codeEnd := 23, names := { entries := [(⟨1⟩, "x")] } } := by
    cbv
  rw [hload] at hprogram
  cases hprogram
  have hrun : (session.run {
      image := twice.build, codeEnd := 23, names := { entries := [(⟨1⟩, "x")] } }).1 =
        .failed ((Error.of (.duplicateSymbol "x")).atOffset 16) := by
    cbv
  exact ⟨_, hrun, by decide⟩

/-- A function of the host that fails with an error that has an offset. -/
def misplaced : HostFunction Unit :=
  .ofPure "f" (.exact 0) fun _ =>
    .error (((Error.of (.malformed "located")).atOffset 1).inFrame "host")

/-- A program that calls the function. -/
def callMisplaced : Builder :=
  (Builder.empty.symbol "f").2.extend [.importHost ⟨1⟩ none, .call ⟨1⟩ []]

/-- The error of the function has the offset of no statement. -/
theorem run_misplaced :
    let session : Session Unit :=
      { config := { fuel := some 9 }, hosts := { functions := [misplaced] }, host := () }
    callMisplaced.Assembled ∧ callMisplaced.code.length < 2 ^ 31 - 4 ∧
      (∀ s ∈ callMisplaced.statements, s.Encodable) ∧ callMisplaced.names.length < 2 ^ 30 ∧
      ∃ program e, callMisplaced.program = .ok program ∧ (session.run program).1 = .failed e ∧
        ∀ a, e.offset ≠ some (offset callMisplaced.statements a) := by
  intro session
  refine ⟨.extend (.symbol .empty "f") _, by decide, ?_, by decide, ?_⟩
  · intro s hs
    have hmem : s ∈ [Stmt.importHost ⟨1⟩ none, .call ⟨1⟩ []] := hs
    simp only [List.mem_cons, List.not_mem_nil, or_false] at hmem
    rcases hmem with rfl | rfl
    · exact .importHost fun s hs => by cases hs
    · exact .call (by decide) fun e he => by cases he
  · let program : Program := {
      image := callMisplaced.build, codeEnd := 19, names := { entries := [(⟨1⟩, "f")] } }
    have hload : callMisplaced.program = .ok program := by cbv
    have hrun : (session.run program).1 =
        .failed (((Error.of (.malformed "located")).atOffset 1).inFrame "host") := by
      cbv
    refine ⟨program, _, hload, hrun, fun a h => ?_⟩
    -- The code begins behind the header, and so does every statement.
    have hstart : 1 = offset callMisplaced.statements a := Option.some.inj h
    rw [offset, codeStart] at hstart
    omega

end Tree

end Bytewalk
