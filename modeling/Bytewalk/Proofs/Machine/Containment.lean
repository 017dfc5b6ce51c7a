import Bytewalk.Proofs.Machine.PassExecution
import Bytewalk.Proofs.Machine.RunOrder

/-!
# Contained scopes

What is declared inside stays inside. From any state, however an execution ends, the frames that
have been opened before bind what they did, except that a statement may bind a symbol in the
current frame: its own name, if it is a declaration. So names from blocks, loops, modules and calls
cannot be looked up from scopes around them.

The main result is `scopes_contained`.
-/

namespace Bytewalk

variable {σ : Type}

namespace Store

variable {u v : Store (Binding σ)} {scope : Scope} {frame : FrameId} {names : Set Symbol}

/-- A symbol is looked up in the frames of the scope only. -/
theorem lookup?_congr {s : Symbol} (h : ∀ f ∈ scope.frames, v.local? f s = u.local? f s) :
    v.lookup? scope s = u.lookup? scope s := by
  rw [lookup?, lookup?]
  generalize scope.frames = frames at h
  induction frames with
  | nil => rfl
  | cons f rest ih =>
    rw [List.findSome?_cons, List.findSome?_cons, h f List.mem_cons_self,
      ih fun g hg => h g (List.mem_cons_of_mem f hg)]

/-- What is not a new name is bound as it was. -/
theorem Gains.local?_of_notMem {old : Nat} (h : Gains old frame names u v) {other : FrameId}
    (hold : other.index < old) {s : Symbol} (hs : s ∉ names) :
    v.local? other s = u.local? other s := by
  by_cases hframe : other = frame
  · subst hframe
    rcases h.gained hold with hsame | ⟨new, hnew, -, hsame⟩
    · exact hsame s
    · exact hsame s (ne_of_mem_of_not_mem hnew hs).symm
  · exact h.others other hold hframe s

end Store

/-- Against the frames that are open in a state, an execution binds names as its opcode lets it. -/
private theorem gains_of_state (m : Setup σ) (n : Nat) (s : State σ) :
    s.store.Gains s.store.frames.size s.scope.frame (Machine.namesAt m.program.image s.position)
        (endState (Machine.execute m n s)).store ∧
      s.store.Gains s.store.frames.size s.scope.frame ∅
        (endState (Machine.evaluate m n s)).store := by
  -- Nothing is assumed about the store, and all its frames are old.
  let w : Terms σ := {
    old := s.store.frames.size, kept := fun _ => False, ordered := False, cut := fun _ => False }
  have hs : s.Fits w s.store := ⟨Nat.le_refl _, False.elim, False.elim, False.elim⟩
  obtain ⟨hexecute, hevaluate⟩ := Machine.acts_whole (m := m) (w := w) (fun _ => id) n hs
  exact ⟨hexecute.leads.gains, hevaluate.leads.gains⟩

/-- From any state, and however it ends, the evaluation of an expression leaves what the open frames
bind. The execution of a statement does so in all of them but the current one; this one binds what
it did and at most one symbol more, which it did not bind and which is the declared name where the
statement is a declaration. Blocks, loops, assignments, calls, prints, breaks and returns bind none.
So from every scope of open frames a symbol is looked up as before, unless the scope leads through
the current frame and the symbol is the new name. -/
theorem scopes_contained (m : Setup σ) (n : Nat) (s : State σ) :
    (∀ frame : FrameId, frame.index < s.store.frames.size → ∀ x,
      (endState (Machine.evaluate m n s)).store.local? frame x = s.store.local? frame x) ∧
    (∀ frame : FrameId, frame.index < s.store.frames.size → frame ≠ s.scope.frame → ∀ x,
      (endState (Machine.execute m n s)).store.local? frame x = s.store.local? frame x) ∧
    (s.scope.frame.index < s.store.frames.size →
      (∀ x, (endState (Machine.execute m n s)).store.local? s.scope.frame x =
        s.store.local? s.scope.frame x) ∨
      ∃ new ∈ Machine.namesAt m.program.image s.position,
        s.store.local? s.scope.frame new = none ∧ ∀ x, x ≠ new →
          (endState (Machine.execute m n s)).store.local? s.scope.frame x =
            s.store.local? s.scope.frame x) ∧
    (∀ op ∈ [StatementOp.block, .loop, .assign, .call, .print, .breakLoop, .returnValue],
      StatementOp.ofByte? (m.program.image.byteAt s.position) = some op →
      ∀ frame : FrameId, frame.index < s.store.frames.size → ∀ x,
        (endState (Machine.execute m n s)).store.local? frame x = s.store.local? frame x) ∧
    ∀ scope : Scope, (∀ frame ∈ scope.frames, frame.index < s.store.frames.size) → ∀ x,
      (endState (Machine.evaluate m n s)).store.lookup? scope x = s.store.lookup? scope x ∧
      (s.scope.frame ∉ scope.frames ∨ x ∉ Machine.namesAt m.program.image s.position →
        (endState (Machine.execute m n s)).store.lookup? scope x = s.store.lookup? scope x) := by
  obtain ⟨hexecute, hevaluate⟩ := gains_of_state m n s
  refine ⟨fun frame hold x => hevaluate.same hold x, hexecute.others, hexecute.gained,
    fun op hop hbyte frame hold x => ?_, fun scope hopen x => ⟨?_, fun hunseen => ?_⟩⟩
  · refine hexecute.local?_of_notMem hold fun hnew => ?_
    rw [Machine.namesAt, hbyte] at hnew
    simp only [List.mem_cons, List.not_mem_nil, or_false] at hop
    rcases hop with rfl | rfl | rfl | rfl | rfl | rfl | rfl <;> exact hnew
  · exact Store.lookup?_congr fun f hf => hevaluate.same (hopen f hf) x
  · refine Store.lookup?_congr fun f hf => ?_
    rcases hunseen with hother | hname
    · exact hexecute.others f (hopen f hf) (ne_of_mem_of_not_mem hf hother) x
    · exact hexecute.local?_of_notMem (hopen f hf) hname

/-- A module with a variable of the same module. -/
def Stmt.smallModule : Stmt :=
  .module ⟨1⟩ [.declare false ⟨2⟩ none] []

/-- Of a module, only its own name is seen from outside, and of the same variable in a block none
is. -/
theorem scopes_contained_smallModule :
    let m := Setup.ofStatement .smallModule
    let m' := Setup.ofStatement (.block [.declare false ⟨2⟩ none])
    let s := State.initial #[] #[] ()
    (∃ t, Machine.execute m 9 s = .ok .normal t ∧ t.store.local? ⟨0⟩ ⟨1⟩ = some ⟨1⟩ ∧
      t.store.lookup? s.scope ⟨2⟩ = s.store.lookup? s.scope ⟨2⟩) ∧
    (endState (Machine.evaluate m 9 s)).store.local? ⟨0⟩ ⟨1⟩ = s.store.local? ⟨0⟩ ⟨1⟩ ∧
    (endState (Machine.execute m' 9 s)).store.local? ⟨0⟩ ⟨2⟩ = s.store.local? ⟨0⟩ ⟨2⟩ := by
  intro m m' s
  obtain ⟨t, hrun, hname⟩ : ∃ t, Machine.execute m 9 s = .ok .normal t ∧
      t.store.local? ⟨0⟩ ⟨1⟩ = some ⟨1⟩ := ⟨_, by cbv, by cbv⟩
  have hopen : ∀ frame ∈ s.scope.frames, frame.index < s.store.frames.size := by decide
  have hmodule : StatementOp.ofByte? (m.program.image.byteAt s.position) = some .module := by cbv
  have hblock : StatementOp.ofByte? (m'.program.image.byteAt s.position) = some .block := by cbv
  have hinner : (⟨2⟩ : Symbol) ∉ Machine.namesAt m.program.image s.position := by
    have hsymbol : m.program.image.int32At (s.position + 1) = 1 := by cbv
    rw [Machine.namesAt, hmodule]
    simp [Machine.namesOf, hsymbol]
  obtain ⟨hevaluate, -, -, -, hscopes⟩ := scopes_contained m 9 s
  obtain ⟨-, -, -, hnone, -⟩ := scopes_contained m' 9 s
  have hlookup := (hscopes s.scope hopen ⟨2⟩).2 (.inr hinner)
  rw [hrun] at hlookup
  exact ⟨⟨t, hrun, hname, hlookup⟩, hevaluate ⟨0⟩ (hopen ⟨0⟩ (by decide)) ⟨1⟩,
    hnone .block (by decide) hblock ⟨0⟩ (hopen ⟨0⟩ (by decide)) ⟨2⟩⟩

end Bytewalk
