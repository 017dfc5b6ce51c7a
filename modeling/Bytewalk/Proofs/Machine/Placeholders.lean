import Bytewalk.Proofs.Machine.PassExecution
import Bytewalk.Proofs.Machine.RunOrder

/-!
# Placeholders out of sight

The closure of a function binds the parameters to placeholders. Calls run in frames of their own
inside the closure, with the parameters bound once more, and the closure itself is never the scope
in which something is executed. So no name ever stands for a placeholder, and calls that are open at
the same time have parameters of their own, also where they are calls of one function.

`Store.Secludes` says so of a store, and `placeholders_secluded` is the main result.
-/

namespace Bytewalk

variable {σ : Type}

/-! ## Known scopes -/

/-- A scope has one frame more than the scope around it. -/
theorem Scope.frames_of_exit? {scope parent : Scope} (h : scope.exit? = some parent) :
    scope.frames = scope.frame :: parent.frames := by
  rcases scope with ⟨frame, _ | ⟨first, outer⟩⟩
  · cases h
  · cases h
    rfl

namespace Store

/-- The scopes that can be met where some scopes are active: these, the closures of functions and
classes, the scopes of modules, and whatever is around them. -/
inductive Knows (store : Store (Binding σ)) (active : List Scope) : Scope → Prop
  /-- An active scope. -/
  | active {scope : Scope} : scope ∈ active → Knows store active scope
  /-- The closure of a function. -/
  | function {f : Function} : store.Declares f → Knows store active f.closure
  /-- The scope of the declaration of a class. -/
  | classInfo {cell : CellId} {c : ClassInfo} :
      store.read? cell = some (.classInfo c) → Knows store active c.closure
  /-- The scope of a module. -/
  | module {cell : CellId} {info : ModuleInfo} :
      store.read? cell = some (.module info) → Knows store active info.scope
  /-- The scope around a known one. -/
  | exit {scope parent : Scope} :
      Knows store active scope → scope.exit? = some parent → Knows store active parent

/-- The functions of the store are well formed, and their placeholders are out of sight, where some
scopes are active. -/
structure Secludes (store : Store (Binding σ)) (active : List Scope) : Prop where
  /-- The closure of a function binds the parameters, which are different from each other, and
  nothing else; each of them is a variable without a value. -/
  reserves : ∀ f, store.Declares f → store.Reserves f.closure.frame f.params
  /-- The closure of a function is not active. -/
  inactive : ∀ f, store.Declares f → ∀ scope ∈ active, scope.frame ≠ f.closure.frame
  /-- Only calls open scopes inside the closure of a function, since it is not active: such a scope
  binds the parameters to variables of its own. -/
  called : ∀ f, store.Declares f → ∀ scope parent, store.Knows active scope →
    scope.exit? = some parent → parent.frame = f.closure.frame →
    ∀ s ∈ f.params, store.BindsVariable scope.frame s
  /-- No name stands for a placeholder. -/
  unseen : ∀ f, store.Declares f → ∀ scope ∈ active, ∀ s cell,
    store.lookup? scope s = some cell → ∀ param, store.local? f.closure.frame param ≠ some cell
  /-- No two frames, and no two symbols, share a cell. -/
  apart : ∀ frame s frame' s' cell, store.local? frame s = some cell →
    store.local? frame' s' = some cell → frame = frame' ∧ s = s'
  /-- The frames of known scopes have been opened. -/
  opened : ∀ scope, store.Knows active scope → ∀ frame ∈ scope.frames,
    frame.index < store.frames.size

variable {store : Store (Binding σ)} {active : List Scope}

/-- The frames of a known scope have been opened, and closures among them are hidden, but for the
first one. -/
theorem Orderly.knows (h : store.Orderly) (hactive : ∀ scope ∈ active, store.Lexical scope.frames)
    {scope : Scope} (hscope : store.Knows active scope) :
    (∀ frame ∈ scope.frames, frame.index < store.frames.size) ∧
      scope.frames.IsChain store.Hides := by
  induction hscope with
  | active hmem => exact ⟨(hactive _ hmem).opened, (hactive _ hmem).hides⟩
  | @function f hf =>
    have houter := h.lexical hf
    -- A closure is not inside another one: the first frame around it is unreserved.
    refine ⟨List.forall_mem_cons.2 ⟨(h.reserves hf).opened, houter.opened⟩, ?_⟩
    exact houter.hides.cons fun frame hframe g hg heq =>
      absurd heq (houter.unreserved frame hframe g hg)
  | classInfo hcell =>
    have hclass : store.Lexical _ := h.admits _ _ hcell
    exact ⟨hclass.opened, hclass.hides⟩
  | module hcell =>
    have hmodule : store.Lexical _ := h.admits _ _ hcell
    exact ⟨hmodule.opened, hmodule.hides⟩
  | exit _ hexit ih =>
    rw [Scope.frames_of_exit? hexit] at ih
    exact ⟨(List.forall_mem_cons.1 ih.1).2, ih.2.tail⟩

/-- In a store in order placeholders are out of sight of lexical scopes. -/
theorem Orderly.secludes (h : store.Orderly)
    (hactive : ∀ scope ∈ active, store.Lexical scope.frames) : store.Secludes active where
  reserves _ := h.reserves
  inactive f hf scope hscope := ((hactive scope hscope).unreserved _ rfl f hf).symm
  called f hf scope parent hscope hexit hparent := by
    have hchain := (h.knows hactive hscope).2
    rw [Scope.frames_of_exit? hexit] at hchain
    exact List.IsChain.rel hchain f hf hparent.symm
  unseen f hf scope hscope s cell hlookup := by
    obtain ⟨frame, -, hbound, hfree⟩ := (hactive scope hscope).lookup? h hlookup
    exact h.ne_placeholder hbound hfree hf
  apart := h.unique
  opened _ hscope := (h.knows hactive hscope).1

/-- The functions of the first store are still there in the second one, with the same placeholders,
and neither here nor there these have a value. -/
def KeepsPlaceholders (u v : Store (Binding σ)) : Prop :=
  ∀ f, u.Declares f → v.Declares f ∧ ∀ param cell, u.local? f.closure.frame param = some cell →
    v.local? f.closure.frame param = some cell ∧
    u.read? cell = some .uninitialized ∧ v.read? cell = some .uninitialized

/-- Between stores in order placeholders are kept. -/
theorem Later.keepsPlaceholders {u v : Store (Binding σ)} (h : u.Later v) (hu : u.Orderly)
    (hv : v.Orderly) : u.KeepsPlaceholders v := by
  intro f hf
  refine ⟨h.declares hf, fun param cell hcell => ?_⟩
  have hcell' := h.bound _ param cell hcell
  exact ⟨hcell', (hu.reserves hf).placeholder param cell hcell,
    (hv.reserves (h.declares hf)).placeholder param cell hcell'⟩

end Store

/-! ## Calls -/

/-- The state behind the opcode, if what has begun is a call. A statement is counted. -/
def Begun.call? (m : Setup σ) (b : Begun σ) : Option (State σ) :=
  let byte := m.program.image.byteAt b.state.position
  match b.kind, StatementOp.ofByte? byte, ExpressionOp.ofByte? byte with
  | .statement, some .call, _ =>
    some { b.state with position := b.state.position + 1, executed := b.state.executed + 1 }
  | .expression, _, some .call => some { b.state with position := b.state.position + 1 }
  | _, _, _ => none

/-- A call is made where the store and the scope are those of what has begun. -/
theorem Begun.same_of_call? {m : Setup σ} {b : Begun σ} {s : State σ} (h : b.call? m = some s) :
    s.store = b.state.store ∧ s.scope = b.state.scope := by
  rw [Begun.call?] at h
  split at h
  · cases h
    exact ⟨rfl, rfl⟩
  · cases h
    exact ⟨rfl, rfl⟩
  · cases h

/-- The function for which a name stands, if it stands for one. -/
def State.function? (t : State σ) (name : Symbol) : Option Function :=
  match (t.store.lookup? t.scope name).bind t.store.read? with
  | some (.function f) => some f
  | _ => none

/-- A name that stands for a function has a cell that holds it. -/
theorem State.function?_eq_some {t : State σ} {name : Symbol} {f : Function}
    (h : t.function? name = some f) :
    ∃ cell, t.store.lookup? t.scope name = some cell ∧ t.store.read? cell = some (.function f) := by
  rw [State.function?] at h
  split at h
  · rename_i g hbind
    cases h
    exact Option.bind_eq_some_iff.1 hbind
  · cases h

/-- In the state `t` the frame of a call is opened without a fault, where some scopes are active. -/
structure State.OpensFrame (m : Setup σ) (f : Function) (args : List Value) (active : List Scope)
    (t : State σ) (frame : Scope) (t' : State σ) : Prop where
  /-- The frame is opened. -/
  opens : Machine.openFrame m f args t = .ok frame t'
  /-- It is inside the closure of the function. -/
  inside : frame.exit? = some f.closure
  /-- No scope has had the frame before. -/
  fresh : t.store.frames.size ≤ frame.frame.index
  /-- The frame binds the parameters and nothing else. -/
  binds : t'.store.BindsArguments frame.frame f.params
  /-- The frame shares no cell with a frame that has been known before. -/
  own : ∀ scope, t.store.Knows active scope → ∀ other ∈ scope.frames, ∀ s s' cell,
    t'.store.local? frame.frame s = some cell → t'.store.local? other s' ≠ some cell
  /-- Placeholders are out of sight of the frame as well. -/
  secludes : t'.store.Secludes (frame :: active)

/-- If no more calls are open than may be, a call goes on with the body of the function in the frame
that is opened for it. -/
theorem State.OpensFrame.call_eq {m : Setup σ} {execute : Exec σ Flow} {evaluate : Exec σ Operand}
    {f : Function} {callee : Symbol} {args : List Value} {active : List Scope} {frame : Scope}
    {s t t' : State σ} (h : t.OpensFrame m f args active frame t')
    (hargs : Machine.callArguments m evaluate s = .ok (callee, args) t)
    (hname : t.function? callee = some f) (hlength : args.length = f.params.length)
    (hdepth : t.depth < m.config.maxCallDepth) :
    Machine.call m execute evaluate s = Machine.enter m execute f frame t' := by
  obtain ⟨cell, hlookup, hread⟩ := State.function?_eq_some hname
  have hnamed : Machine.callNamed m execute callee args t = Machine.invoke m execute f args t := by
    rw [Machine.callNamed, bind_of_ok (Exec.resolve_of_some t hlookup),
      bind_of_ok (Exec.read_eq t cell), hread]
    rfl
  rw [Machine.call_eq, bind_of_ok hargs, hnamed, Machine.invoke_eq, if_pos hlength,
    Machine.withinDepth, if_neg (Nat.not_le.2 hdepth), bind_of_ok h.opens]

/-- In order, placeholders are out of sight when the arguments of a call have been evaluated, and
then a frame is opened for the function that is called, unless the number of arguments is wrong. -/
theorem InOrder.opensFrame {m : Setup σ} {b : Begun σ} {around : List (Begun σ)}
    (h : InOrder b around) {n : Nat} {callee : Symbol} {args : List Value} {s t : State σ}
    (hfrom : b.call? m = some s)
    (hargs : Machine.callArguments m (Machine.evaluate m n) s = .ok (callee, args) t) :
    t.store.Secludes ((b :: around).map (·.state.scope)) ∧
      ∀ f, t.function? callee = some f → args.length = f.params.length →
        ∃ frame t', t.OpensFrame m f args ((b :: around).map (·.state.scope)) frame t' := by
  obtain ⟨hstore, hscope⟩ := Begun.same_of_call? hfrom
  have hs := h.fits hstore hscope
  have hevaluated :=
    (Machine.acts_callArguments (m := m) (fun _ => Machine.acts_evaluate m n) hs).leads
  rw [hargs] at hevaluated
  have ht := hevaluated.fits hs
  have horderly := ht.orderly trivial
  have hlexical : ∀ scope ∈ (b :: around).map (·.state.scope), t.store.Lexical scope.frames :=
    List.forall_mem_map.2 fun c hc =>
      (h.lexical c hc).later (hstore ▸ hevaluated.later trivial)
  refine ⟨horderly.secludes hlexical, fun f hname hlength => ?_⟩
  obtain ⟨cell, -, hread⟩ := State.function?_eq_some hname
  obtain ⟨t', hframe, hbinds⟩ := Machine.openFrame_eq_ok m horderly ⟨cell, hread⟩ hlength
  have hopened := (Machine.acts_openFrame (m := m) f args ht).leads
  rw [hframe] at hopened
  have horderly' := hopened.orderly trivial
  refine ⟨_, t', hframe, rfl, Nat.le_refl _, hbinds, ?_, horderly'.secludes ?_⟩
  -- A shared cell would make the frame one that has been opened before.
  · intro scope hscope other hother x x' c hx hx'
    obtain ⟨rfl, -⟩ := horderly'.unique _ _ _ _ _ hx hx'
    exact Nat.lt_irrefl _ ((horderly.knows hlexical hscope).1 _ hother)
  · refine List.forall_mem_cons.2 ⟨?_, fun scope hscope => ?_⟩
    · exact Machine.lexical_openFrame ht trivial ⟨cell, hread⟩ hlength hframe
    · exact (hlexical scope hscope).later (hopened.later trivial)

/-! ## Runs -/

/-- At every moment of a run, and at its end, the functions are well formed and their placeholders
are out of sight of everything that has begun. So they are when the arguments of a call have been
evaluated; and then, if there are as many of them as parameters, a frame is opened without a fault,
and the body is executed in it unless too many calls are open. And of any two moments, a function
that is declared at the earlier one is declared at the later one, with the same placeholders, and
these are still without a value. -/
theorem placeholders_secluded (m : Setup σ) (output echoed : Array String) (host : σ) :
    m.Always (fun b around => b.state.store.Secludes ((b :: around).map (·.state.scope)))
      (.initial output echoed host) ∧
    (∀ watch steps, let t := endState (m.runWatched watch steps (.initial output echoed host))
      t.store.Secludes [t.scope]) ∧
    m.Always (fun b around => ∀ s n callee args t, b.call? m = some s →
      Machine.callArguments m (Machine.evaluate m n) s = .ok (callee, args) t →
      t.store.Secludes ((b :: around).map (·.state.scope)) ∧
      ∀ f, t.function? callee = some f → args.length = f.params.length →
        ∃ frame t', t.OpensFrame m f args ((b :: around).map (·.state.scope)) frame t' ∧
          (t.depth < m.config.maxCallDepth →
            Machine.call m (Machine.execute m n) (Machine.evaluate m n) s =
              Machine.enter m (Machine.execute m n) f frame t')) (.initial output echoed host) ∧
    ∀ (watch watch' : Watch σ), watch.Stricter watch' → ∀ steps,
      (endState (m.runWatched watch steps (.initial output echoed host))).store.KeepsPlaceholders
        (endState (m.runWatched watch' steps (.initial output echoed host))).store := by
  refine ⟨m.always_of_inOrder (fun b around h => ?_) output echoed host, fun watch steps => ?_,
    m.always_of_inOrder (fun b around h s n callee args t hfrom hargs => ?_) output echoed host,
    fun watch watch' hstricter steps =>
      (m.later_of_stricter hstricter steps output echoed host).keepsPlaceholders
        (m.orderly_runWatched watch steps output echoed host).1
        (m.orderly_runWatched watch' steps output echoed host).1⟩
  · exact h.orderly.secludes (List.forall_mem_map.2 h.lexical)
  · obtain ⟨horderly, hlexical⟩ := m.orderly_runWatched watch steps output echoed host
    exact horderly.secludes (List.forall_mem_singleton.2 hlexical)
  · obtain ⟨hsecludes, hopens⟩ := h.opensFrame hfrom hargs
    refine ⟨hsecludes, fun f hname hlength => ?_⟩
    obtain ⟨frame, t', hframe⟩ := hopens f hname hlength
    exact ⟨frame, t', hframe, hframe.call_eq hargs hname hlength⟩

/-- A function that calls itself once if its argument is true, and a call of it. -/
def Stmt.callingItself : Stmt :=
  .block [
    .function ⟨1⟩ [⟨2⟩] (.branch (.variable ⟨2⟩) (.call ⟨1⟩ [.literal (.bool false)]) none),
    .call ⟨1⟩ [.literal (.bool true)]]

/-- The watch that stops a run when a function with one parameter calls something with `false`. -/
def Watch.innerCalls (m : Setup σ) : Watch σ := fun b _ =>
  match b.call? m with
  | none => none
  | some s =>
    match Machine.callArguments m (Machine.evaluate m 3) s with
    | .ok (callee, [.bool false]) t =>
      match (t.function? callee).map Function.params, t.depth with
      | some [_], 1 => some .exhausted
      | _, _ => none
    | _ => none

set_option maxRecDepth 4000 in
/-- The function calls itself, and so its parameter is bound in one more frame. Its placeholder is
there before this call and after the run. -/
theorem placeholders_secluded_callingItself :
    let m := Setup.ofStatement .callingItself
    let start := State.initial #[] #[] ()
    (∃ t t', m.runWatched (.innerCalls m) 6 start = .error .exhausted t ∧
      m.runWatched .idle 6 start = .ok () t' ∧ t.store.local? ⟨2⟩ ⟨2⟩ = some ⟨0⟩ ∧
      t.store.KeepsPlaceholders t'.store ∧ t'.store.Secludes [t'.scope]) ∧
    ∃ (b : Begun Unit) (around : List (Begun Unit)) (callee : Symbol) (f : Function) (frame : Scope)
      (s t t' : State Unit),
      Machine.callArguments m (Machine.evaluate m 3) s = .ok (callee, [.bool false]) t ∧
      t.function? callee = some f ∧ t.depth = 1 ∧
      t.OpensFrame m f [.bool false] ((b :: around).map (·.state.scope)) frame t' ∧
      Machine.call m (Machine.execute m 3) (Machine.evaluate m 3) s =
        Machine.enter m (Machine.execute m 3) f frame t' := by
  intro m start
  obtain ⟨t, hstopped, hclosure⟩ : ∃ t, m.runWatched (.innerCalls m) 6 start =
      .error .exhausted t ∧ t.store.local? ⟨2⟩ ⟨2⟩ = some ⟨0⟩ := ⟨_, by cbv, by cbv⟩
  obtain ⟨t', hended⟩ : ∃ t', m.runWatched .idle 6 start = .ok () t' := ⟨_, by cbv⟩
  obtain ⟨-, hsecludes, hcalls, hkeeps⟩ := placeholders_secluded m #[] #[] ()
  have hsecludes := hsecludes .idle 6
  have hkeeps := hkeeps (.innerCalls m) .idle (fun _ _ h => by cases h) 6
  rw [hended] at hsecludes
  rw [hstopped, hended] at hkeeps
  refine ⟨⟨t, t', hstopped, hended, hclosure, hkeeps, hsecludes⟩, ?_⟩
  have hne : m.runWatched (.innerCalls m) 6 start ≠ m.runFrom 6 start := by
    rw [← m.runWatched_idle, hstopped, hended]
    intro heq
    cases heq
  obtain ⟨b, around, hsome, hcall⟩ := hcalls.exists_of_ne m hne
  rw [Watch.innerCalls] at hsome
  split at hsome
  · cases hsome
  rename_i s hfrom
  split at hsome
  · rename_i callee u hargs
    split at hsome
    · rename_i param hparams hdepth
      obtain ⟨f, hname, hparams⟩ := Option.map_eq_some_iff.1 hparams
      obtain ⟨frame, u', hopens, henter⟩ := (hcall s 3 callee _ u hfrom hargs).2 f hname
        (by rw [hparams]; rfl)
      exact ⟨b, around, callee, f, frame, s, u, u', hargs, hname, hdepth, hopens,
        henter (by rw [hdepth]; decide)⟩
    · cases hsome
  · cases hsome

end Bytewalk
