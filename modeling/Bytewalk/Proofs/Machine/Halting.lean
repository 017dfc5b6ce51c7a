import Mathlib
import Bytewalk.Machine.Session
import Bytewalk.Proofs.Code.Walk
import Bytewalk.Proofs.Machine.Limits

/-!
# Halting

Nothing that is done with an image goes on forever. Where the number of statements is limited a run
comes to its end, whatever the image, the host functions and the depth of calls, and passing over a
part of the program comes to its end without any limit:

- `Setup.ends_of_steps_le`: the steps that suffice are known in advance;
- `Session.run_ne_unfinished`: a session never gives up on a run with a limit;
- `halts_of_fuel`: both for every image, with the number of steps of the walks over its parts.
-/

namespace Bytewalk

open Decoder

variable {σ : Type}

/-! ## Runs -/

/-- With so many steps, or more, every run with a limit comes to the same end. -/
theorem Setup.ends_of_steps_le {m : Setup σ} {limit n : Nat} (hfuel : m.config.fuel = some limit)
    {s : State σ} (hs : s.executed ≤ limit)
    (hn : (limit + 1) * (m.program.image.size + 3) ≤ n) :
    m.Ends s (m.runFrom n s) ∧ m.runFrom n s = m.runFrom m.steps s := by
  have hsteps : m.steps ≤ n := by
    rw [steps, hfuel]
    exact hn
  have hends : ∀ t, m.runFrom m.steps s ≠ .error .exhausted t :=
    m.runFrom_ne_exhausted hfuel hs
  have hmore : m.runFrom n s = m.runFrom m.steps s := runFrom_of_le hsteps hends
  exact ⟨⟨hmore ▸ hends, n, rfl⟩, hmore⟩

/-- A program is loaded with the image that it comes from. -/
theorem Program.image_of_load {image : Image} {program : Program}
    (h : Program.load image = .ok program) : program.image = image := by
  rw [load] at h
  split at h
  · cases h
  · dsimp only at h
    split at h
    · cases hnames : NameTable.load image (image.int32At 0).toInt.toNat with
      | ok names =>
        rw [hnames] at h
        cases h
        rfl
      | error e =>
        rw [hnames] at h
        cases h
    · cases h

namespace Session

variable {session : Session σ} {limit : Nat}

/-- A run with a limit comes to its end in the steps that a session gives it. -/
theorem run_ne_unfinished (hfuel : session.config.fuel = some limit) (program : Program) :
    (session.run program).1 ≠ .unfinished := by
  have hends := Setup.runFrom_ne_exhausted
    { program, hosts := session.hosts, config := session.config } hfuel
    (s := .initial session.output session.echoed session.host) (Nat.zero_le limit)
  rw [run]
  dsimp only
  split
  · nofun
  · nofun
  · exact absurd ‹_› (hends _)

end Session

/-- Where the number of statements is limited, every image comes to its end: the run of a session
is never given up, and with so many steps or more there is but one end for the run. Passing over a
statement or an expression comes to its end from every position, without a limit and within so many
steps, and further on where it succeeds. -/
theorem halts_of_fuel (session : Session σ) (image : Image) :
    (∀ limit, session.config.fuel = some limit →
      (session.runImage image).1 ≠ .unfinished ∧
      ∀ program, Program.load image = .ok program →
        let m : Setup σ := { program, hosts := session.hosts, config := session.config }
        let s : State σ := .initial session.output session.echoed session.host
        ∀ n, (limit + 1) * (image.size + 3) ≤ n →
          m.Ends s (m.runFrom n s) ∧ m.runFrom n s = m.runFrom m.steps s) ∧
    ∀ p,
      (∀ n, 7 * (image.size - p) + 2 ≤ n →
        Traversal.walk image n (.ahead [.statement] p) = .ended (passStatement image p) ∧
        Traversal.walk image n (.ahead [.expression] p) = .ended (passExpression image p)) ∧
      ∀ q, (passStatement image p = .ok () q → p < q) ∧
        (passExpression image p = .ok () q → p < q) := by
  refine ⟨fun limit hfuel => ⟨?_, ?_⟩, fun p => ⟨?_, ?_⟩⟩
  · rw [Session.runImage]
    split
    · exact Session.run_ne_unfinished hfuel _
    · nofun
  · intro program hload m s n hn
    rw [← Program.image_of_load hload] at hn
    exact Setup.ends_of_steps_le hfuel (Nat.zero_le limit) hn
  · intro n hn
    exact ⟨Traversal.walk_node image hn, Traversal.walk_node image hn⟩
  · exact fun q => ⟨Passes.lt_of_node, Passes.lt_of_node⟩

/-- A loop that prints and has no last turn. -/
def Builder.endless : Builder :=
  Builder.empty.extend [.loop none (.literal (.bool true)) (.print (.literal .null)) none]

/-- The run of a loop without a last turn ends within a known number of steps, since its statements
are limited. Passing over the loop takes no notice of its turns and ends behind it. -/
theorem halts_of_fuel_endless :
    let image := Builder.endless.build
    let session : Session Unit := { config := { fuel := some 3 }, host := () }
    let program : Program := { image, codeEnd := 13, names := {} }
    let m : Setup Unit := { program, hosts := session.hosts, config := session.config }
    let s : State Unit := .initial #[] #[] ()
    (session.runImage image).1 ≠ .unfinished ∧ m.Ends s (m.runFrom 64 s) ∧
      passStatement image 4 = .ok () 13 ∧ 4 < 13 := by
  intro image session program m s
  obtain ⟨hruns, hpasses⟩ := halts_of_fuel session image
  obtain ⟨hunfinished, hends⟩ := hruns 3 rfl
  have hload : Program.load image = .ok program := by cbv
  obtain ⟨hwalks, hforward⟩ := hpasses 4
  -- Nine bytes and one part cannot take more steps than the walk is given.
  have hwalk : Traversal.walk image 65 (.ahead [.statement] 4) = .ended (.ok () 13) := by rfl
  have hpass : passStatement image 4 = .ok () 13 :=
    Traversal.Stage.ended.inj ((hwalks 65 (by decide)).1.symm.trans hwalk)
  exact ⟨hunfinished, (hends program hload 64 (by decide)).1, hpass, (hforward 13).1 hpass⟩

end Bytewalk
