import Mathlib
import Bytewalk.Machine.Session
import Bytewalk.Program.Builder
import Bytewalk.Proofs.Machine.PassExecution

/-!
# Covered programs

Passing over the statements of a program one after the other up to the end of its code checks its
form. A program that passes this check never fails over its form, although its parts are executed
in another order than they are passed over, repeatedly and from offsets stored earlier.

The invariant of a run is `Sound`: the bodies of all functions can be passed over. `Sound` and the
rules of `Follows` are kept by every statement; `topLevel_covered` takes them along a whole run,
and `run_covered` reads off what they say about sessions and interrupted runs.
-/

namespace Bytewalk

/-! ## Failures over the form -/

/-- A failure over the form of the image: it is malformed, or a byte begins no statement, no
expression or no literal. -/
def Cause.IsOverForm : Cause → Prop
  | .malformed _ => True
  | .unknownOpcode construct _ =>
    construct = "statement" ∨ construct = "expression" ∨ construct = "literal tag"
  | _ => False

/-- A format error that only an execution finds: an unknown operator, a reserved opcode or a stray
signal. -/
def Cause.IsFoundLate : Cause → Prop
  | .unknownOpcode construct _ =>
    construct = "unary operator" ∨ construct = "binary operator"
  | .reservedOpcode _ | .strayControlFlow _ => True
  | _ => False

/-- Failures over the form are failures over the form of the image. -/
private theorem Cause.IsOverForm.isStructural {cause : Cause} (h : cause.IsOverForm) :
    cause.IsStructural := by
  cases cause with
  | malformed => trivial
  | unknownOpcode construct byte =>
    rcases h with rfl | rfl | rfl <;> simp [Cause.IsStructural]
  | _ => exact h.elim

/-- Format errors are found late unless the form of the image is at fault. -/
private theorem Cause.isFoundLate_of_format {cause : Cause} (hformat : cause.category = .format)
    (h : ¬ cause.IsStructural) : cause.IsFoundLate := by
  cases cause with
  | unknownOpcode construct byte =>
    by_cases hunary : construct = "unary operator"
    · exact .inl hunary
    · by_cases hbinary : construct = "binary operator"
      · exact .inr hbinary
      · exact absurd ⟨hunary, hbinary⟩ h
  | reservedOpcode => trivial
  | malformed => exact absurd trivial h
  | strayControlFlow => trivial
  | _ => cases hformat

/-! ## Coverage -/

/-- Passing over statements one after the other leads from the offset to the end of the code. -/
inductive Covers (program : Program) : Nat → Prop
  /-- The end has been reached. -/
  | done {p : Nat} (hend : program.codeEnd ≤ p) : Covers program p
  /-- A statement is passed over, and the others after it. -/
  | statement {p q : Nat} (hpass : Decoder.passStatement program.image p = .ok () q)
      (hrest : Covers program q) : Covers program p

variable {σ : Type}

/-- The store of a state in which a run ends, however it ends. -/
def endStore {α : Type} : EStateM.Result Stop (State σ) α → Store (Binding σ)
  | .ok _ t => t.store
  | .error _ t => t.store

/-- Runs the program from a state, and stops where a statement or an expression begins in a state
in which the run is to halt. -/
def Setup.runUntil (m : Setup σ) (halt : State σ → Bool) (steps : Nat) (s : State σ) :
    EStateM.Result Stop (State σ) Unit :=
  Machine.topLevel m (Machine.executeUntil m halt steps) steps s

/-- A run that never halts is the whole run. -/
theorem Setup.runUntil_never (m : Setup σ) (steps : Nat) (s : State σ) :
    m.runUntil (fun _ => false) steps s = m.runFrom steps s := by
  rw [runUntil, runFrom, (Machine.until_never m steps).1]

/-- From a covered offset on, statements that follow their layout keep the store sound, and they
do not fail over the form of the image. -/
theorem Machine.topLevel_covered {m : Setup σ} {execute : Exec σ Flow}
    (hexec : ∀ s : State σ, Follows m s.position [.statement] (· = .normal) execute s)
    (turns : Nat) {s : State σ} (hcovers : Covers m.program s.position)
    (hsound : Sound m s.store) :
    Sound m (endStore (topLevel m execute turns s)) ∧
      ∀ stop t, topLevel m execute turns s = .error stop t → ¬ stop.IsStructural m := by
  induction turns generalizing s with
  | zero =>
    rw [topLevel]
    split
    · refine ⟨hsound, fun stop t h => ?_⟩
      cases h
      exact id
    · exact ⟨hsound, fun stop t h => by cases h⟩
  | succ n ih =>
    rw [topLevel]
    by_cases hstart : s.position < m.program.codeEnd
    · cases hcovers with
      | done hend => exact absurd hstart (Nat.not_lt.2 hend)
      | @statement _ q hpass hrest =>
        -- The statement follows its layout, over which there is a passage to the next one.
        have hfollows := hexec s
        rw [Follows] at hfollows
        cases hs : execute s with
        | error stop t =>
          rw [hs] at hfollows
          simp only [hstart, ↓reduceIte]
          refine ⟨hfollows.1 hsound, fun stop' t' h => ?_⟩
          cases h
          exact fun hstop => hfollows.2 hsound hstop q (passStatement_eq_ok.1 hpass)
        | ok flow t =>
          rw [hs] at hfollows
          simp only [hstart, ↓reduceIte]
          cases flow with
          | normal =>
            have ht : t.position = q := (hfollows.2 rfl).unique (passStatement_eq_ok.1 hpass)
            exact ih (ht ▸ hrest) (hfollows.1 hsound)
          | breakLoop | returnValue =>
            -- A stray signal is no failure over the form of the image.
            refine ⟨hfollows.1 hsound, fun stop' t' h => ?_⟩
            cases h
            exact fun hstop => hstop.1
    · simp only [hstart, ↓reduceIte]
      exact ⟨hsound, fun stop t h => by cases h⟩

/-- The store before the first statement is sound, since it has no cells. -/
theorem Sound.initial (m : Setup σ) (output echoed : Array String) (host : σ) :
    Sound m (State.initial output echoed host).store :=
  ⟨fun _ _ h => by simp at h, fun _ _ _ h => by simp at h⟩

/-- If passing over statements leads from the first one to the end of the code, then no run of the
image fails over its form, unless a host function makes such a failure up; all other format errors
are found late, or made up by a host function. Whenever a run is interrupted, the body of every
function that has been declared can be passed over. -/
theorem run_covered {image : Image} {program : Program} (hload : Program.load image = .ok program)
    (hcovers : Covers program codeStart) :
    (∀ (session : Session σ) (e : Error), (session.runImage image).1 = .failed e →
      (∀ f ∈ session.hosts.functions, ∀ cause, f.MayFailWith cause → ¬ cause.IsOverForm) →
      ¬ e.cause.IsOverForm ∧
        (e.category = .format →
          e.cause.IsFoundLate ∨ ∃ f ∈ session.hosts.functions, f.MayFailWith e.cause)) ∧
    ∀ (m : Setup σ), m.program = program → ∀ halt steps output echoed host cell f,
      (endStore (m.runUntil halt steps (.initial output echoed host))).read? cell =
          some (.function f) →
        ∃ q, Decoder.passStatement program.image f.body = .ok () q := by
  have hrun : ∀ m : Setup σ, m.program = program → ∀ halt steps output echoed host,
      Sound m (endStore (m.runUntil halt steps (.initial output echoed host))) ∧
        ∀ stop t, m.runUntil halt steps (.initial output echoed host) = .error stop t →
          ¬ stop.IsStructural m := by
    intro m hm halt steps output echoed host
    refine Machine.topLevel_covered (Machine.execute_follows m halt steps) steps ?_ ?_
    · rw [hm]
      exact hcovers
    · exact Sound.initial m output echoed host
  constructor
  · intro session e hfailed hhosts
    let m : Setup σ := { program, hosts := session.hosts, config := session.config }
    obtain ⟨t, ht⟩ : ∃ t, m.runFrom m.steps
        (.initial session.output session.echoed session.host) = .error (.failed e) t := by
      rw [Session.runImage, hload] at hfailed
      simp only [Session.run] at hfailed
      split at hfailed
      · cases hfailed
      · rename_i e' t hrun
        cases hfailed
        exact ⟨t, hrun⟩
      · cases hfailed
    -- The whole run is one that is never interrupted.
    rw [← Setup.runUntil_never] at ht
    have hstop := (hrun m rfl _ _ _ _ _).2 _ _ ht
    -- A cause that a host function has made up says nothing about the image.
    by_cases hmade : ∃ f ∈ session.hosts.functions, f.MayFailWith e.cause
    · obtain ⟨f, hf, hfails⟩ := hmade
      exact ⟨hhosts f hf e.cause hfails, fun _ => .inr ⟨f, hf, hfails⟩⟩
    · have hstructural : ¬ e.cause.IsStructural := fun h =>
        hstop ⟨h, fun f hf hfails => hmade ⟨f, hf, hfails⟩⟩
      refine ⟨fun h => hstructural h.isStructural, fun hformat => .inl ?_⟩
      exact Cause.isFoundLate_of_format hformat hstructural
  · intro m hm halt steps output echoed host cell f hf
    obtain ⟨q, hpass⟩ := (hrun m hm halt steps output echoed host).1.bodies cell f hf
    rw [hm] at hpass
    exact ⟨q, passStatement_eq_ok.2 hpass⟩

/-- A program that declares a function and then leaves a loop that is not there. -/
def Builder.stray : Builder :=
  Builder.empty.extend [.function ⟨1⟩ [] (.print (.literal .null)), .breakLoop]

/-- The program is covered, fails with a format error that is found late, and has declared a
function whose body can be passed over. -/
theorem run_stray :
    let program : Program := { image := Builder.stray.build, codeEnd := 17, names := {} }
    let session : Session Unit := { config := { fuel := some 2 }, host := () }
    let m : Setup Unit := { program, hosts := session.hosts, config := session.config }
    Program.load Builder.stray.build = .ok program ∧ Covers program codeStart ∧
      (∃ e, (session.runImage Builder.stray.build).1 = .failed e ∧ e.cause.IsFoundLate) ∧
      ∃ f, (endStore (m.runUntil (fun _ => false) 9 (.initial #[] #[] ()))).read? ⟨0⟩ =
          some (.function f) ∧
        ∃ q, Decoder.passStatement program.image f.body = .ok () q := by
  intro program session m
  have hload : Program.load Builder.stray.build = .ok program := by cbv
  have hcovers : Covers program codeStart := by
    have hfirst : Decoder.passStatement program.image codeStart = .ok () 16 := by cbv
    have hsecond : Decoder.passStatement program.image 16 = .ok () 17 := by cbv
    exact .statement hfirst (.statement hsecond (.done (Nat.le_refl 17)))
  have hfailed : (session.runImage Builder.stray.build).1 =
      .failed ((Error.of (.strayControlFlow "break")).atOffset 16) := by
    cbv
  have hdeclared :
      (endStore (m.runUntil (fun _ => false) 9 (.initial #[] #[] ()))).read? ⟨0⟩ =
        some (.function {
          name := { parent := [], symbol := ⟨1⟩ }, params := [], body := 13
          closure := { frame := ⟨1⟩, outer := [⟨0⟩] } }) := by
    cbv
  have h := @run_covered Unit _ _ hload hcovers
  refine ⟨hload, hcovers, ⟨_, hfailed, ?_⟩, _, hdeclared, h.2 m rfl _ _ _ _ _ _ _ hdeclared⟩
  rcases (h.1 session _ hfailed fun f hf => by cases hf).2 rfl with hlate | ⟨f, hf, -⟩
  · exact hlate
  · cases hf

end Bytewalk
