import Bytewalk.Command.Launch
import Bytewalk.Proofs.Machine.Sessions

/-!
# Echoed and collected lines

Where the printed lines go makes no difference but that they go there. A machine that collects its
lines and one that echoes them go in lockstep: `Mirrors` says of two executions that the second one
echoes what the first one collects and does the same otherwise. From it follows the same of whole
runs, sessions and launches, however they end: `echoed_eq_collected`.
-/

namespace Bytewalk

variable {σ α β : Type}

/-- The configuration with another place for the lines. -/
abbrev Config.withEcho (c : Config) (echo : Bool) : Config :=
  { c with echo }

namespace State

/-- The state with other lines in the place of those that have been printed. -/
def withLines (s : State σ) (output echoed : Array String) : State σ :=
  { s with output, echoed }

@[simp]
theorem withLines_self (s : State σ) : s.withLines s.output s.echoed = s := rfl

end State

/-- Where an execution ends, the state is changed. -/
@[simp]
theorem endState_left (leave : State σ → State σ → State σ) (s : State σ)
    (r : EStateM.Result Stop (State σ) α) :
    endState (Exec.left leave s r) = leave s (endState r) := by
  cases r <;> rfl

/-! ## Executions that do not print -/

/-- The lines that have been printed make no difference to the execution, and it adds none. -/
def Exec.IsBlind (x : Exec σ α) : Prop :=
  ∀ (s : State σ) (output echoed : Array String),
    x (s.withLines output echoed) = Exec.left (fun _ t => t.withLines output echoed) s (x s)

namespace Exec.IsBlind

variable {x : Exec σ α}

/-- No line is added. -/
theorem endState_eq (h : x.IsBlind) (s : State σ) :
    (endState (x s)).output = s.output ∧ (endState (x s)).echoed = s.echoed := by
  have hself := congrArg endState (h s s.output s.echoed)
  rw [State.withLines_self] at hself
  rw [hself]
  cases x s <;> exact ⟨rfl, rfl⟩

theorem decode (decoder : Decoder α) : (Exec.decode decoder : Exec σ α).IsBlind := by
  intro s output echoed
  simp only [Exec.decode, State.withLines]
  cases decoder s.position <;> rfl

theorem lift (result : Except Error α) : (Exec.lift result : Exec σ α).IsBlind := by
  intro s _ _
  cases result <;> rfl

theorem resolve (names : NameTable) (name : Symbol) :
    (Exec.resolve names name : Exec σ CellId).IsBlind := by
  intro s output echoed
  have hsame : (s.withLines output echoed).store.lookup? (s.withLines output echoed).scope name =
      s.store.lookup? s.scope name := rfl
  cases hfind : s.store.lookup? s.scope name with
  | none =>
    rw [Exec.resolve_of_none s hfind, Exec.resolve_of_none _ (hsame.trans hfind)]
    rfl
  | some cell =>
    rw [Exec.resolve_of_some s hfind, Exec.resolve_of_some _ (hsame.trans hfind)]
    rfl

theorem bindIn (names : NameTable) (scope : Scope) (name : Symbol) (binding : Binding σ) :
    (Exec.bindIn names scope name binding).IsBlind := by
  intro s output echoed
  rw [Exec.bindIn, Exec.bindIn]
  by_cases hbound : s.store.bindsLocally scope name
  · have hbound' : (s.withLines output echoed).store.bindsLocally scope name := hbound
    rw [if_pos hbound, if_pos hbound']
    rfl
  · have hbound' : ¬ (s.withLines output echoed).store.bindsLocally scope name := hbound
    rw [if_neg hbound, if_neg hbound']
    rfl

theorem callHost (f : HostFunction σ) (args : List Value) :
    (Machine.callHost f args).IsBlind := by
  intro s output echoed
  simp only [Machine.callHost, State.withLines]
  split <;> rfl

/-- Twins under the same host are the same execution, and it is blind. -/
theorem of_twins {m : Setup σ} {known : Binding σ → Prop} {x' : Exec σ α}
    (h : Machine.Twins m id known x x') : x' = x ∧ x.IsBlind := by
  cases h with
  | pure | exhaust | fail | seek | position | scope | qualify | openIn | write =>
    exact ⟨rfl, fun _ _ _ => rfl⟩
  | lift => exact ⟨rfl, .lift _⟩
  | decode => exact ⟨rfl, .decode _⟩
  | resolve name => exact ⟨rfl, .resolve _ name⟩
  | bindIn scope name =>
    rw [Binding.mapHost_id]
    exact ⟨rfl, .bindIn _ scope name _⟩

end Exec.IsBlind

/-! ## Executions that print -/

/-- The first execution collects lines, and the second one echoes them; they do the same otherwise,
and each leaves the other lines alone. -/
def Mirrors (x x' : Exec σ α) : Prop :=
  ∀ (s : State σ) (output echoed : Array String), ∃ lines : Array String,
    (endState (x s)).output = s.output ++ lines ∧ (endState (x s)).echoed = s.echoed ∧
    x' (s.withLines output echoed) =
      Exec.left (fun _ t => t.withLines output (echoed ++ lines)) s (x s)

namespace Mirrors

variable {m : Setup σ} {x x' : Exec σ α} {k k' : α → Exec σ β}

/-- What does not print mirrors itself. -/
theorem of_isBlind (h : x.IsBlind) : Mirrors x x := by
  intro s output echoed
  obtain ⟨houtput, hechoed⟩ := h.endState_eq s
  refine ⟨#[], ?_, hechoed, ?_⟩
  · rw [houtput, Array.append_empty]
  · rw [h s output echoed, Array.append_empty]

theorem bind (hx : Mirrors x x') (hk : ∀ a, Mirrors (k a) (k' a)) :
    Mirrors (x >>= k) (x' >>= k') := by
  intro s output echoed
  obtain ⟨lines, houtput, hechoed, hsame⟩ := hx s output echoed
  cases hs : x s with
  | ok a t =>
    rw [hs] at houtput hechoed hsame
    -- The second execution goes on with the lines that it has echoed.
    obtain ⟨lines', houtput', hechoed', hsame'⟩ := hk a t output (echoed ++ lines)
    rw [bind_of_ok hs, bind_of_ok hsame]
    refine ⟨lines ++ lines', ?_, hechoed'.trans hechoed, ?_⟩
    · rw [houtput', ← Array.append_assoc]
      exact congrArg (· ++ lines') houtput
    · rw [hsame', ← Array.append_assoc]
      rfl
  | error stop t =>
    rw [hs] at houtput hechoed hsame
    rw [bind_of_error hs, bind_of_error hsame]
    exact ⟨lines, houtput, hechoed, rfl⟩

theorem mapError {f : Error → Error} (h : Mirrors x x') :
    Mirrors (Exec.mapError f x) (Exec.mapError f x') := by
  intro s output echoed
  obtain ⟨lines, houtput, hechoed, hsame⟩ := h s output echoed
  refine ⟨lines, ?_⟩
  rw [Exec.mapError, Exec.mapError, hsame]
  cases hs : x s with
  | ok a t =>
    rw [hs] at houtput hechoed
    exact ⟨houtput, hechoed, rfl⟩
  | error stop t =>
    rw [hs] at houtput hechoed
    cases stop <;> exact ⟨houtput, hechoed, rfl⟩

/-- What is changed on the way in and on the way out are not the lines. -/
theorem within {enter : State σ → State σ} {leave : State σ → State σ → State σ}
    (henter : ∀ (s : State σ) output echoed,
      enter (s.withLines output echoed) = (enter s).withLines output echoed)
    (hleave : ∀ (s t : State σ) output echoed output' echoed',
      leave (s.withLines output echoed) (t.withLines output' echoed') =
        (leave s t).withLines output' echoed')
    (h : Mirrors x x') : Mirrors (Exec.within enter leave x) (Exec.within enter leave x') := by
  have hsame : ∀ s : State σ, (enter s).output = s.output ∧ (enter s).echoed = s.echoed := by
    intro s
    have hself := henter s s.output s.echoed
    rw [State.withLines_self] at hself
    rw [hself]
    exact ⟨rfl, rfl⟩
  have hend : ∀ s t : State σ, (leave s t).output = t.output ∧ (leave s t).echoed = t.echoed := by
    intro s t
    have hself := hleave s t s.output s.echoed t.output t.echoed
    rw [State.withLines_self, State.withLines_self] at hself
    rw [hself]
    exact ⟨rfl, rfl⟩
  intro s output echoed
  obtain ⟨lines, houtput, hechoed, hx⟩ := h (enter s) output echoed
  refine ⟨lines, ?_⟩
  rw [Exec.within, Exec.within, henter, hx, ← (hsame s).1, ← (hsame s).2]
  cases hs : x (enter s) with
  | ok a t | error stop t =>
    rw [hs] at houtput hechoed
    refine ⟨(hend s t).1.trans houtput, (hend s t).2.trans hechoed, ?_⟩
    exact congrArg _ (hleave s t output echoed output (echoed ++ lines))

theorem withinDepth {c : Config} (hdepth : c.maxCallDepth = m.config.maxCallDepth)
    (h : Mirrors x x') :
    Mirrors (Machine.withinDepth m x) (Machine.withinDepth (m.withConfig c) x') := by
  intro s output echoed
  simp only [Machine.withinDepth, hdepth]
  by_cases hopen : m.config.maxCallDepth ≤ s.depth
  · have hopen' : m.config.maxCallDepth ≤ (s.withLines output echoed).depth := hopen
    rw [if_pos hopen, if_pos hopen']
    exact of_isBlind (fun _ _ _ => rfl) s output echoed
  · have hopen' : ¬ m.config.maxCallDepth ≤ (s.withLines output echoed).depth := hopen
    rw [if_neg hopen, if_neg hopen']
    exact h s output echoed

theorem countStatement {c : Config} (hfuel : c.fuel = m.config.fuel) :
    Mirrors (Machine.countStatement m) (Machine.countStatement (m.withConfig c)) := by
  have hsame : Machine.countStatement (m.withConfig c) = Machine.countStatement m := by
    funext s
    simp only [Machine.countStatement, hfuel]
  rw [hsame]
  refine of_isBlind fun s output echoed => ?_
  rcases Machine.countStatement_cases m s with hlt | ⟨limit, hlimit, hle⟩
  · rw [Machine.countStatement_of_lt hlt,
      Machine.countStatement_of_lt (s := s.withLines output echoed) hlt]
    rfl
  · rw [Machine.countStatement_of_le hlimit hle,
      Machine.countStatement_of_le (s := s.withLines output echoed) hlimit hle]
    rfl

/-- Only here do the executions differ. -/
theorem emitLine {c : Config} (hecho : m.config.echo = false) (hecho' : c.echo = true)
    (line : String) :
    Mirrors (Machine.emitLine m line) (Machine.emitLine (m.withConfig c) line) := by
  intro s output echoed
  have hcollect : Machine.emitLine m line s = .ok () { s with output := s.output.push line } := by
    rw [Machine.emitLine_eq, hecho]
    rfl
  have hprint : Machine.emitLine (m.withConfig c) line (s.withLines output echoed) =
      .ok () (s.withLines output (echoed.push line)) := by
    rw [Machine.emitLine_eq, hecho']
    rfl
  rw [hcollect, hprint, Array.push_eq_append]
  exact ⟨#[line], Array.push_eq_append, rfl, rfl⟩

/-- A machine that collects its lines and one that echoes them go in lockstep. -/
theorem lockstep (hecho : m.config.echo = false) :
    Machine.Lockstep m m.hosts (m.config.withEcho true) id (fun _ => True)
      (fun {_} => Mirrors (σ := σ)) where
  inert _ := trivial
  registered _ _ := trivial
  hosts name := (Option.map_id_apply ..).symm
  twins h := by
    obtain ⟨rfl, hblind⟩ := Exec.IsBlind.of_twins h
    exact of_isBlind hblind
  bind := bind
  read hk := bind (of_isBlind fun _ _ _ => rfl) fun b => by
    have hrest := hk b trivial
    rwa [Binding.mapHost_id] at hrest
  inScope h := within (fun _ _ _ => rfl) (fun _ _ _ _ _ _ => rfl) h
  inModule h := within (fun _ _ _ => rfl) (fun _ _ _ _ _ _ => rfl) h
  callHost _ args := of_isBlind (.callHost _ args)
  emitLine := emitLine hecho rfl
  stray _ := of_isBlind fun _ _ _ => rfl
  function _ := trivial
  mapError _ := mapError
  inCall h := within (fun _ _ _ => rfl) (fun _ _ _ _ _ _ => rfl) h
  withinDepth := withinDepth rfl
  countStatement := countStatement rfl

end Mirrors

/-! ## Runs -/

namespace Session

/-- Where the lines go makes no difference but that they go there. Take two sessions that differ in
nothing but that the first one collects its lines, the second one echoes them, and other lines have
been printed before. They run to the same outcome and leave the host in the same state; the lines
that the first one collects are in order those that the second one echoes, and neither changes
anything else. -/
def Echoes (run : Session σ → Outcome × Session σ) : Prop :=
  ∀ (session : Session σ) (output echoed : Array String),
    ∃ (outcome : Outcome) (lines : Array String) (host : σ),
      run { session with config := session.config.withEcho false } =
        (outcome, { session with
          config := session.config.withEcho false, output := session.output ++ lines, host }) ∧
      run { session with config := session.config.withEcho true, output, echoed } =
        (outcome, { session with
          config := session.config.withEcho true, output, echoed := echoed ++ lines, host })

theorem run_echoes (program : Program) : Echoes (σ := σ) (run · program) := by
  intro session output echoed
  let m : Setup σ := { program, hosts := session.hosts, config := session.config.withEcho false }
  let s : State σ := .initial session.output session.echoed session.host
  obtain ⟨lines, houtput, hechoed, hsame⟩ :=
    (Mirrors.lockstep (m := m) rfl).run
      ((Mirrors.lockstep rfl).declareClass fun _ => trivial) (.refl m.steps) s output echoed
  generalize hr : Machine.topLevel m (Machine.execute m m.steps) m.steps s = r
    at houtput hechoed hsame
  have hcollecting :=
    run_eq { session with config := session.config.withEcho false } program (m := m) rfl hr
  have hechoing := run_eq { session with config := session.config.withEcho true, output, echoed }
    program (m := m.withConfig (m.config.withEcho true)) rfl hsame
  rw [houtput, hechoed] at hcollecting
  rw [Outcome.ofResult_left, endState_left] at hechoing
  exact ⟨.ofResult r, lines, (endState r).host, hcollecting, hechoing⟩

/-- An image that is not loaded prints nothing. -/
theorem runImage_echoes (image : Image) : Echoes (σ := σ) (runImage · image) := by
  cases hload : Program.load image with
  | ok program =>
    have hrun : (runImage · image) = (run (σ := σ) · program) := by
      funext session
      rw [runImage, hload]
    rw [hrun]
    exact run_echoes program
  | error e =>
    have hfail : ∀ session : Session σ, session.runImage image = (.failed e, session) := by
      intro session
      rw [runImage, hload]
    intro session output echoed
    refine ⟨.failed e, #[], session.host, (hfail _).trans ?_, (hfail _).trans ?_⟩ <;>
      rw [Array.append_empty]

end Session

/-! ## Launches -/

namespace Launch

/-- The launches end in the same way, and the second one echoes what the first one collects. -/
structure Echoes (collecting echoing : Launch) : Prop where
  /-- Both fail with the same error, or neither does. -/
  error : echoing.error = collecting.error
  /-- The lines are the same. -/
  echoed : echoing.echoed = collecting.output
  /-- Where lines are echoed, none is collected. -/
  output : echoing.output = #[]
  /-- Where lines are collected, none is echoed. -/
  silent : collecting.echoed = #[]

theorem Echoes.failed (e : LaunchError) : Echoes (.failed e) (.failed e) :=
  ⟨rfl, rfl, rfl, rfl⟩

theorem runProgram_echoes (c : Config) (program : Program) (time : Binary64) :
    Echoes (runProgram (c.withEcho false) program time)
      (runProgram (c.withEcho true) program time) := by
  let session : Session Binary64 :=
    { config := c, hosts := (Registry.registerAll {} (Library.standard id)).2, host := time }
  obtain ⟨outcome, lines, host, hcollecting, hechoing⟩ :=
    Session.run_echoes program session #[] #[]
  simp only [runProgram, Session.registerAll, Session.new]
  -- The host functions are registered before the configuration is looked at.
  cases (Registry.registerAll {} (Library.standard id)).1 with
  | error e => exact .failed _
  | ok _ =>
    dsimp only at hcollecting hechoing ⊢
    rw [hcollecting, hechoing]
    exact ⟨rfl, rfl, rfl, rfl⟩

theorem runFile_echoes (settings : Settings) (path : String) (contents : Except FileFault Image)
    (time : Binary64) :
    Echoes (runFile { settings with machine := settings.machine.withEcho false } path contents time)
      (runFile { settings with machine := settings.machine.withEcho true } path contents time) := by
  cases contents with
  | error fault => exact .failed _
  | ok image =>
    simp only [runFile]
    cases Program.load image with
    | error e => exact .failed _
    | ok program => exact runProgram_echoes settings.machine program time

end Launch

/-- Echoed and collected output agree, whatever the program, the host functions and the rest of the
configuration, and however the run ends. The same holds where an image is loaded first, and of
launches with the standard host functions. -/
theorem echoed_eq_collected :
    (∀ {σ : Type} (program : Program), Session.Echoes (σ := σ) (Session.run · program)) ∧
    (∀ {σ : Type} (image : Image), Session.Echoes (σ := σ) (Session.runImage · image)) ∧
    ∀ (settings : Settings) (path : String) (contents : Except FileFault Image) (time : Binary64),
      Launch.Echoes
        (Launch.runFile { settings with machine := settings.machine.withEcho false }
          path contents time)
        (Launch.runFile { settings with machine := settings.machine.withEcho true }
          path contents time) :=
  ⟨Session.run_echoes, Session.runImage_echoes, Launch.runFile_echoes⟩

end Bytewalk
