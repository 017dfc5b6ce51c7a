import Bytewalk.Machine.Run
import Bytewalk.Proofs.Computation

/-!
# Executions as equations

What elementary executions yield from a given state, and what repeated executions do in their
first turn.
-/

namespace Bytewalk.Exec

variable {σ α : Type}

/-! ## Elementary executions -/

section Elementary

variable (s : State σ)

/-- A failure leaves the state as it is. -/
theorem fail_eq (cause : Cause) :
    (fail cause : Exec σ α) s = .error (.failed (.of cause)) s := rfl

/-- Decoding moves to where the decoder ends. -/
theorem decode_of_ok {decoder : Decoder α} {a : α} {q : Nat}
    (h : decoder s.position = .ok a q) :
    decode decoder s = .ok a { s with position := q } := by
  rw [decode, h]

/-- Decoding fails as the decoder does. -/
theorem decode_of_error {decoder : Decoder α} {e : Error} {q : Nat}
    (h : decoder s.position = .error e q) :
    decode decoder s = .error (.failed e) { s with position := q } := by
  rw [decode, h]

/-- What has been decoded moves to where the decoder has ended. -/
theorem eq_ok_of_decode {decoder : Decoder α} {a : α} {t : State σ}
    (h : decode decoder s = .ok a t) :
    ∃ q, decoder s.position = .ok a q ∧ t = { s with position := q } := by
  cases hdecoder : decoder s.position with
  | ok b q =>
    rw [decode_of_ok s hdecoder] at h
    cases h
    exact ⟨q, rfl, rfl⟩
  | error e q =>
    rw [decode_of_error s hdecoder] at h
    cases h

/-- The position is looked up. -/
theorem position_eq : (position : Exec σ Nat) s = .ok s.position s := rfl

/-- The position is set. -/
theorem seek_eq (p : Nat) : seek p s = .ok () { s with position := p } := rfl

/-- A new frame is opened inside the current scope. -/
theorem openScope_eq :
    openScope s = .ok (s.store.newChild s.scope).1
      { s with store := (s.store.newChild s.scope).2 } := rfl

/-- A symbol is qualified by the modules around. -/
theorem qualify_eq (name : Symbol) :
    qualify name s = .ok { parent := s.modules, symbol := name } s := rfl

/-- A symbol is resolved to its nearest cell. -/
theorem resolve_of_some {names : NameTable} {name : Symbol} {cell : CellId}
    (h : s.store.lookup? s.scope name = some cell) :
    resolve names name s = .ok cell s := by
  refine (bind_of_ok rfl).trans ((bind_of_ok rfl).trans ?_)
  rw [h]
  rfl

/-- A symbol without a cell in sight is unknown. -/
theorem resolve_of_none {names : NameTable} {name : Symbol}
    (h : s.store.lookup? s.scope name = none) :
    resolve names name s = .error (.failed (.of (.unknownSymbol (names.display name)))) s := by
  refine (bind_of_ok rfl).trans ((bind_of_ok rfl).trans ?_)
  rw [h]
  rfl

/-- A cell is read. -/
theorem read_eq (cell : CellId) :
    read cell s = .ok ((s.store.read? cell).getD default) s := rfl

/-- The value of a cell is that of its binding. -/
theorem valueOf_cell (cell : CellId) :
    valueOf (.cell cell) s = .ok ((s.store.read? cell).getD default).value s := rfl

/-- A symbol is bound in the current scope. -/
theorem bindHere_eq (names : NameTable) (name : Symbol) (binding : Binding σ) :
    bindHere names name binding s = bindIn names s.scope name binding s := rfl

/-- Executions that end alike end alike with another error. -/
theorem mapError_congr {x x' : Exec σ α} {f : Error → Error} {s : State σ} (h : x' s = x s) :
    mapError f x' s = mapError f x s := by
  rw [mapError, mapError, h]

end Elementary

/-! ## Repetition -/

/-- Several statements are the first one and, unless it asks for something, the others. -/
theorem sequence_succ (statement : Exec σ Flow) (n : Nat) :
    sequence statement (n + 1) = (do
      match ← statement with
      | .normal => sequence statement n
      | flow => return flow) := by
  funext s
  rw [sequence]
  cases h : statement s with
  | error stop t => rw [bind_of_error h]
  | ok flow t =>
    rw [bind_of_ok h]
    cases flow <;> rfl

/-- Several turns are the first one and, unless it decides, the others. -/
theorem iterate_succ (turn : Exec σ (Option α)) (n : Nat) :
    iterate turn (n + 1) = (do
      match ← turn with
      | none => iterate turn n
      | some a => return a) := by
  funext s
  rw [iterate]
  cases h : turn s with
  | error stop t => rw [bind_of_error h]
  | ok next t =>
    rw [bind_of_ok h]
    cases next <;> rfl

end Bytewalk.Exec

/-! ## Calls -/

namespace Bytewalk.Machine

variable {σ : Type} (m : Setup σ) (execute : Exec σ Flow)

/-- Binds the parameters of a function to the arguments in the frame of a call. -/
def bindArguments (f : Function) (args : List Value) (frame : Scope) : Exec σ Scope := do
  (f.params.zip args).forM fun i =>
    Exec.bindIn m.program.names frame i.1 (.variable false i.2)
  return frame

/-- A frame is opened inside the scope of the function. -/
theorem openFrame_eq (f : Function) (args : List Value) (s : State σ) :
    openFrame m f args s = bindArguments m f args (s.store.newChild f.closure).1
      { s with store := (s.store.newChild f.closure).2 } := rfl

/-- Executes the body of a function in its frame, and yields the value with which it returns. -/
def enter (f : Function) (frame : Scope) : Exec σ Value :=
  Exec.mapError (·.inFrame (f.name.render m.program.names)) do
    match ← Exec.inCall f.body frame f.name.parent execute with
    | .returnValue value => return value
    | .normal => return .null
    | .breakLoop => Exec.fail Flow.breakLoop.stray

variable {m execute} {f : Function} {args : List Value} {s : State σ}

/-- A call with the wrong number of arguments fails. -/
theorem invoke_of_length_ne (h : args.length ≠ f.params.length) :
    invoke m execute f args s =
      .error (.failed (.of (.arityMismatch (f.name.render m.program.names)
        (toString f.params.length) args.length))) s := by
  rw [invoke, if_pos h]
  exact bind_of_error rfl

/-- A call fails where as many calls are open as may be. -/
theorem invoke_of_depth_le (h : args.length = f.params.length)
    (hdepth : m.config.maxCallDepth ≤ s.depth) :
    invoke m execute f args s =
      .error (.failed (.of (.limitExceeded (.callDepth m.config.maxCallDepth)))) s := by
  rw [invoke, if_neg (not_not_intro h)]
  refine (bind_of_ok rfl).trans ?_
  dsimp only
  rw [if_pos hdepth]
  exact bind_of_error rfl

/-- Every other call opens a frame and executes the body in it. -/
theorem invoke_of_depth_lt (h : args.length = f.params.length)
    (hdepth : s.depth < m.config.maxCallDepth) :
    invoke m execute f args s = (openFrame m f args >>= enter m execute f) s := by
  rw [invoke, if_neg (not_not_intro h)]
  refine (bind_of_ok rfl).trans ?_
  dsimp only
  rw [if_neg (Nat.not_le.2 hdepth)]
  rfl

/-! ## Counting and printing -/

/-- A printed line is echoed or collected. -/
theorem emitLine_eq (line : String) (s : State σ) :
    emitLine m line s = .ok () (if m.config.echo then { s with echoed := s.echoed.push line }
      else { s with output := s.output.push line }) := rfl

/-- A statement is counted where the limit has not been reached. -/
theorem countStatement_of_lt (h : ∀ limit, m.config.fuel = some limit → s.executed < limit) :
    countStatement m s = .ok () { s with executed := s.executed + 1 } := by
  rw [countStatement]
  refine (bind_of_ok rfl).trans ?_
  cases hfuel : m.config.fuel with
  | none => rfl
  | some limit =>
    refine (bind_of_ok rfl).trans ?_
    dsimp only
    rw [if_neg (Nat.not_lt.2 (h limit hfuel))]
    rfl

/-- Where the limit has been reached, counting fails, but it counts. -/
theorem countStatement_of_le {limit : Nat} (hfuel : m.config.fuel = some limit)
    (h : limit ≤ s.executed) :
    countStatement m s =
      .error (.failed (.of (.limitExceeded (.fuel limit))))
        { s with executed := s.executed + 1 } := by
  rw [countStatement]
  refine (bind_of_ok rfl).trans ?_
  rw [hfuel]
  refine (bind_of_ok rfl).trans ?_
  dsimp only
  rw [if_pos (Nat.lt_succ_of_le h)]
  rfl

/-- A statement is counted or refused. -/
theorem countStatement_cases (m : Setup σ) (s : State σ) :
    (∀ limit, m.config.fuel = some limit → s.executed < limit) ∨
      ∃ limit, m.config.fuel = some limit ∧ limit ≤ s.executed := by
  cases hfuel : m.config.fuel with
  | none => exact .inl fun limit h => by cases h
  | some limit =>
    rcases Nat.lt_or_ge s.executed limit with hlt | hle
    · exact .inl fun _ h => Option.some.inj h ▸ hlt
    · exact .inr ⟨limit, rfl, hle⟩

/-- A statement that is not refused has been counted, and nothing else has changed. -/
theorem countStatement_eq_ok {t : State σ} (h : countStatement m s = .ok () t) :
    t = { s with executed := s.executed + 1 } := by
  rcases countStatement_cases m s with hlt | ⟨limit, hfuel, hle⟩
  · rw [countStatement_of_lt hlt] at h
    cases h
    rfl
  · rw [countStatement_of_le hfuel hle] at h
    cases h

/-! ## Statements -/

/-- Where an opcode stands, the statement is counted, and what the opcode asks for is done behind
it. -/
theorem statement_of_opcode {evaluate : Exec σ Operand} {turns : Nat} {op : StatementOp}
    (hop : StatementOp.ofByte? (m.program.image.byteAt s.position) = some op) :
    statement m execute evaluate turns s = Exec.mapError (·.atOffset s.position) (do
      countStatement m
      Exec.seek (s.position + 1)
      statementOf m execute evaluate turns op) s := by
  refine (bind_of_ok (Exec.position_eq s)).trans (Exec.mapError_congr ?_)
  refine bind_eq_bind rfl fun _ t ht => ?_
  obtain rfl := countStatement_eq_ok ht
  have hread : Exec.decode (Decoder.byte m.program.image)
      { s with executed := s.executed + 1 } = _ := Exec.decode_of_ok _ rfl
  refine (bind_of_ok hread).trans ?_
  rw [hop]
  rfl

/-! ## Imports -/

variable (m)

/-- Binds the host function that has the name of one symbol under another symbol. -/
def bindHost (source target : Symbol) : Exec σ Flow := do
  match m.program.names.get? source with
  | none => Exec.fail (.unnamedSymbol source)
  | some name =>
    match m.hosts.get? name with
    | none => Exec.fail (.unregisteredHost name)
    | some f =>
      Exec.bindHere m.program.names target (.host (← Exec.qualify target) f)
      return .normal

/-- An import reads two symbols, of which the second may be missing. -/
theorem importHost_eq : importHost m = (do
    let source ← Exec.decode (Decoder.symbol m.program.image)
    if ← Exec.decode (Decoder.present m.program.image) then
      bindHost m source (← Exec.decode (Decoder.symbol m.program.image))
    else bindHost m source source) := rfl

end Bytewalk.Machine

/-! ## The beginning -/

/-- In the beginning no cell holds anything. -/
@[simp]
theorem Bytewalk.State.read?_initial {σ : Type} (output echoed : Array String) (host : σ)
    (cell : CellId) : (State.initial output echoed host).store.read? cell = none := by
  simp [State.initial, Store.newRoot, Store.empty, Store.read?]
