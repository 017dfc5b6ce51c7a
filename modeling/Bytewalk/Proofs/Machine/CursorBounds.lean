import Bytewalk.Proofs.Code.Overhang
import Bytewalk.Proofs.Machine.Coverage
import Bytewalk.Proofs.Machine.Cursors

/-!
# Where the cursor of a run comes

Reading past the end of an image is no failure, and no reader looks where it goes. Even so the
cursor of a run stays near the image, for the bound of `Traversal.reach` holds all along:

- `Mover.Tame`: a mover that is the plain one, as long as the bound is kept;
- `Matches`: an execution by such a mover does the same as the machine, wherever the fields that
  it is going to follow keep the bound;
- `Matches.execute_evaluate`: so do whole statements and expressions.

From this `cursor_bounded` concludes that no image overflows the offsets of a run.
-/

namespace Bytewalk

open Traversal

variable {σ α β : Type}

/-- Twice the furthest position to which any part leads that begins inside the image, unless it
fails. -/
def Image.limit (image : Image) : Nat :=
  3 * image.size + 23

/-- Any part that begins inside the image keeps the limit. -/
theorem reach_node_le_limit {image : Image} {kind : Node} {p : Nat} (h : p ≤ image.size) :
    reach image [.nodes kind 1] p ≤ image.limit := by
  rw [reach_of_le h, Image.limit]
  simp only [overhang, drift]
  omega

/-! ## Movers -/

/-- The mover is the plain one as long as the cursor keeps the limit, behind which it comes by one
byte at most. -/
structure Mover.Tame (μ : Mover σ) (image : Image) : Prop where
  /-- Reading. -/
  read {α : Type} {decoder : Decoder α} {s : State σ} (hbegin : 2 * s.position ≤ image.limit + 2)
    (hend : 2 * Decoder.offset (decoder s.position) ≤ image.limit + 2) :
    μ.read decoder s = Exec.decode decoder s
  /-- Jumping. -/
  jump {p : Nat} (h : 2 * p ≤ image.limit + 2) : μ.jump p = Exec.seek p

/-- A watched mover is tame if the watch is only for positions behind the limit. -/
theorem Mover.tame_watched {image : Image} {watch : Nat → Option Stop}
    (h : ∀ p, 2 * p ≤ image.limit + 2 → watch p = none) :
    (watched watch : Mover σ).Tame image where
  read {α decoder s} hbegin hend := by
    have hnone : (track s.position (decoder s.position)).findSome? watch = none := by
      refine List.findSome?_eq_none_iff.2 fun q hq => h q ?_
      -- What lies between two positions is not behind both.
      cases hrun : decoder s.position with
      | ok a r | error e r =>
        rw [hrun] at hq hend
        simp only [track, Decoder.offset, List.mem_cons, List.mem_range'_1] at hq hend
        omega
    simp only [watched, guarding, hnone]
  jump {p} hp := by
    funext s
    simp only [watched, guarding, List.findSome?_cons, List.findSome?_nil, h p hp]

/-! ## Executions -/

/-- However an execution goes on, it keeps the store sound. -/
theorem Follows.sound {m : Setup σ} {p : Nat} {fields : List Field} {good : α → Prop}
    {x : Exec σ α} {s t : State σ} {a : α} (h : Follows m p fields good x s) (hx : x s = .ok a t)
    (hsound : Sound m s.store) : Sound m t.store := by
  rw [Follows, hx] at h
  exact h.1 hsound

/-- The store of the state is sound, and the fields at its position keep the limit. -/
structure Ready (m : Setup σ) (fields : List Field) (s : State σ) : Prop where
  /-- Bodies of functions can be passed over. -/
  sound : Sound m s.store
  /-- Passing over the fields keeps the limit. -/
  reach_le : reach m.program.image fields s.position ≤ m.program.image.limit

namespace Ready

variable {m : Setup σ} {fields fields' rest : List Field} {s t : State σ}

theorem position_le (h : Ready m fields s) : 2 * s.position ≤ m.program.image.limit :=
  Nat.le_trans le_reach h.reach_le

theorem first (h : Ready m (fields ++ rest) s) : Ready m fields s :=
  ⟨h.sound, Nat.le_trans reach_le_append h.reach_le⟩

/-- What has been followed does not make what is ahead any longer. -/
theorem after {good : α → Prop} {x : Exec σ α} {a : α} (h : Ready m (fields ++ rest) s)
    (hx : Follows m s.position fields good x s) (hrun : x s = .ok a t) (ha : good a) :
    Ready m rest t :=
  ⟨hx.sound hrun h.sound, Nat.le_trans (hx.passes hrun ha).reach_le h.reach_le⟩

/-- Fields at the same position keep the limit in every sound store. -/
theorem still (h : Ready m fields s) (hsound : Sound m t.store)
    (hposition : t.position = s.position) : Ready m fields t :=
  ⟨hsound, hposition ▸ h.reach_le⟩

end Ready

/-- From every state in which the fields are ready the first execution does the same as the second
one, which follows the fields. -/
structure Matches (m : Setup σ) (fields : List Field) (good : α → Prop) (x' x : Exec σ α) :
    Prop where
  /-- They do the same. -/
  agrees {s : State σ} (h : Ready m fields s) : x' s = x s
  /-- The fields are followed. -/
  follows (s : State σ) : Follows m s.position fields good x s

namespace Matches

variable {m : Setup σ} {fields rest : List Field} {good : α → Prop} {x' x : Exec σ α}
  {k' k : α → Exec σ β} {s : State σ}

/-- An execution that reads nothing matches itself. -/
theorem still (h : ∀ s : State σ, Follows m s.position [] good x s) : Matches m [] good x x :=
  ⟨fun _ => rfl, h⟩

/-- A matching execution may be continued: where it yields something good the rest of the fields is
ready, and otherwise the store is sound. -/
theorem bind (hx : Matches m fields good x' x) (h : Ready m (fields ++ rest) s)
    (hgood : ∀ a t, good a → Ready m rest t → k' a t = k a t)
    (hbad : ∀ a t, ¬ good a → Sound m t.store → k' a t = k a t) :
    (x' >>= k') s = (x >>= k) s := by
  refine bind_eq_bind (hx.agrees h.first) fun a t hrun => ?_
  by_cases ha : good a
  · exact hgood a t ha (h.after (hx.follows s) hrun ha)
  · exact hbad a t ha ((hx.follows s).sound hrun h.sound)

/-- A matching execution all of whose results are good is continued behind its fields. -/
theorem andThen (hx : Matches m fields (fun _ => True) x' x) (h : Ready m (fields ++ rest) s)
    (hk : ∀ a t, Ready m rest t → k' a t = k a t) : (x' >>= k') s = (x >>= k) s :=
  hx.bind h (fun a t _ ht => hk a t ht) fun _ _ ha => absurd trivial ha

/-- What takes the result of a matching execution, and does not move the cursor any more, may
follow. -/
theorem last (hx : Matches m fields good x' x) (h : Ready m fields s)
    (hk : ∀ a t, k' a t = k a t) : (x' >>= k') s = (x >>= k) s :=
  bind_eq_bind (hx.agrees h) fun a t _ => hk a t

/-! ### Readers -/

section Readers

variable {μ : Mover σ} (hμ : μ.Tame m.program.image)
include hμ

/-- A decoder that keeps the bound for the fields reads them as the machine does. -/
theorem read {decoder : Decoder α} (hwithin : StaysWithin m.program.image fields decoder)
    (hfollows : ∀ s : State σ, Follows m s.position fields good (Exec.decode decoder) s) :
    Matches m fields good (μ.read decoder) (Exec.decode decoder) where
  agrees h := hμ.read (Nat.le_trans h.position_le (Nat.le_add_right _ _))
    (Nat.le_trans (hwithin _) (Nat.add_le_add_right h.reach_le 2))
  follows := hfollows

theorem byte : Matches m [.raw 1] (fun _ => True) (μ.read (Decoder.byte m.program.image))
    (Exec.decode (Decoder.byte m.program.image)) :=
  read hμ (fun _ => Nat.le_trans (Nat.le_trans le_reach reach_raw) (Nat.le_add_right _ _))
    fun _ => .byte

theorem symbol : Matches m [.symbol] (fun _ => True) (μ.read (Decoder.symbol m.program.image))
    (Exec.decode (Decoder.symbol m.program.image)) :=
  read hμ (fun _ => Nat.le_trans (Nat.le_trans le_reach reach_raw) (Nat.le_add_right _ _))
    fun _ => .symbol

theorem literal : Matches m [.literal] (fun _ => True) (μ.read (Decoder.literal m.program.image))
    (Exec.decode (Decoder.literal m.program.image)) :=
  read hμ (fun _ => Nat.le_trans literal_le_reach (Nat.le_add_right _ _)) fun _ => .literal

theorem passStatement : Matches m [.statement] (fun _ => True)
    (μ.read (Decoder.passStatement m.program.image))
    (Exec.decode (Decoder.passStatement m.program.image)) :=
  read hμ (staysWithin_traverse _) fun _ => .passStatement

theorem passOptionalStatement : Matches m [.optional .statement] (fun _ => True)
    (μ.read (Decoder.passOptionalStatement m.program.image))
    (Exec.decode (Decoder.passOptionalStatement m.program.image)) :=
  read hμ (staysWithin_traverse _) fun _ => .passOptionalStatement

theorem members : Matches m [.counted .statement] (fun _ => True)
    (μ.read (Decoder.members m.program.image))
    (Exec.decode (Decoder.members m.program.image)) :=
  read hμ staysWithin_members fun _ => .members

/-- What reads one byte comes no further than one byte behind the limit. -/
theorem read_present (h : Ready m fields s) :
    μ.read (Decoder.present m.program.image) s =
      Exec.decode (Decoder.present m.program.image) s := by
  have hposition := h.position_le
  refine hμ.read (by omega) ?_
  by_cases hzero : m.program.image.byteAt s.position = 0
  · rw [Decoder.present_of_zero hzero, Decoder.offset]
    omega
  · rw [Decoder.present_of_ne_zero hzero, Decoder.offset]
    omega

end Readers

section Rules

variable {μ : Mover σ} (hμ : μ.Tame m.program.image) {kind : Node}
include hμ

/-- An optional part is either there, or its byte is consumed. -/
theorem optional {k' k : Bool → Exec σ β} (h : Ready m (.optional kind :: rest) s)
    (hthere : Ready m (.nodes kind 1 :: rest) s → k' true s = k true s)
    (hmissing : ∀ t, Ready m rest t → k' false t = k false t) :
    (μ.read (Decoder.present m.program.image) >>= k') s =
      (Exec.decode (Decoder.present m.program.image) >>= k) s := by
  have hread := read_present hμ h
  by_cases hzero : m.program.image.byteAt s.position = 0
  · have hpresent := Exec.decode_of_ok s (Decoder.present_of_zero hzero)
    rw [bind_of_ok hpresent, bind_of_ok (hread.trans hpresent)]
    exact hmissing _ ⟨h.sound, Nat.le_trans reach_missing h.reach_le⟩
  · have hpresent := Exec.decode_of_ok s (Decoder.present_of_ne_zero hzero)
    rw [bind_of_ok hpresent, bind_of_ok (hread.trans hpresent)]
    exact hthere ⟨h.sound, Nat.le_trans (reach_there hzero) h.reach_le⟩

/-- An optional symbol is either there, or its byte is consumed. -/
theorem optionalSymbol {k' k : Bool → Exec σ β} (h : Ready m [.optionalSymbol] s)
    (hthere : Ready m [.symbol] s → k' true s = k true s)
    (hmissing : ∀ t, k' false t = k false t) :
    (μ.read (Decoder.present m.program.image) >>= k') s =
      (Exec.decode (Decoder.present m.program.image) >>= k) s := by
  have hread := read_present hμ h
  by_cases hzero : m.program.image.byteAt s.position = 0
  · have hpresent := Exec.decode_of_ok s (Decoder.present_of_zero hzero)
    rw [bind_of_ok hpresent, bind_of_ok (hread.trans hpresent)]
    exact hmissing _
  · have hpresent := Exec.decode_of_ok s (Decoder.present_of_ne_zero hzero)
    rw [bind_of_ok hpresent, bind_of_ok (hread.trans hpresent)]
    refine hthere ⟨h.sound, ?_⟩
    -- The symbol begins inside the image, where an optional one leads just as far.
    have hinside := Nat.le_of_lt (Image.lt_size_of_byteAt_ne_zero hzero)
    have hreach := h.reach_le
    rw [reach_of_le hinside] at hreach ⊢
    exact hreach

/-- A counted list is a count and so many parts. -/
theorem counted {k' k : Nat → Exec σ β} (h : Ready m (.counted kind :: rest) s)
    (hk : ∀ n t, Ready m (.nodes kind n :: rest) t → k' n t = k n t) :
    (μ.read (Decoder.count m.program.image 1) >>= k') s =
      (Exec.decode (Decoder.count m.program.image 1) >>= k) s := by
  have hread : μ.read (Decoder.count m.program.image 1) s =
      Exec.decode (Decoder.count m.program.image 1) s :=
    hμ.read (Nat.le_trans h.position_le (Nat.le_add_right _ _)) (Nat.le_trans
      (Nat.le_trans (count_le_reach_counted 1) h.reach_le) (Nat.le_add_right _ _))
  refine bind_eq_bind hread fun n t hrun => ?_
  obtain ⟨q, hcount, rfl⟩ := Exec.eq_ok_of_decode s hrun
  exact hk n _ ⟨h.sound, Nat.le_trans (reach_counted hcount) h.reach_le⟩

/-- Counted symbols are a count and so many symbols, behind which the rest is ready. -/
theorem symbols {k' k : Nat → Exec σ β} (h : Ready m (.symbols :: rest) s)
    (hk : ∀ n t, Sound m t.store →
      reach m.program.image rest (t.position + n * 4) ≤ m.program.image.limit → k' n t = k n t) :
    (μ.read (Decoder.count m.program.image 4) >>= k') s =
      (Exec.decode (Decoder.count m.program.image 4) >>= k) s := by
  have hread : μ.read (Decoder.count m.program.image 4) s =
      Exec.decode (Decoder.count m.program.image 4) s :=
    hμ.read (Nat.le_trans h.position_le (Nat.le_add_right _ _)) (Nat.le_trans
      (Nat.le_trans (count_le_reach_symbols 4) h.reach_le) (Nat.le_add_right _ _))
  refine bind_eq_bind hread fun n t hrun => ?_
  obtain ⟨q, hcount, rfl⟩ := Exec.eq_ok_of_decode s hrun
  exact hk n _ h.sound (Nat.le_trans (reach_symbols hcount) h.reach_le)

/-- A part is a byte that begins it, and the fields of its layout. -/
theorem node {k' k : UInt8 → Exec σ β} (h : Ready m [.nodes kind 1] s)
    (hunknown : ∀ byte t, kind.layout? byte = none → k' byte t = k byte t)
    (hknown : ∀ byte fields t, kind.layout? byte = some fields → Ready m fields t →
      k' byte t = k byte t) :
    (μ.read (Decoder.byte m.program.image) >>= k') s =
      (Exec.decode (Decoder.byte m.program.image) >>= k) s := by
  have hposition := h.position_le
  have hread : μ.read (Decoder.byte m.program.image) s =
      Exec.decode (Decoder.byte m.program.image) s := by
    refine hμ.read (by omega) ?_
    change 2 * (s.position + 1) ≤ _
    omega
  have hdecode : Exec.decode (Decoder.byte m.program.image) s =
      .ok (m.program.image.byteAt s.position) { s with position := s.position + 1 } := rfl
  rw [bind_of_ok hdecode, bind_of_ok (hread.trans hdecode)]
  cases hlayout : kind.layout? (m.program.image.byteAt s.position) with
  | none => exact hunknown _ _ hlayout
  | some fields =>
    refine hknown _ fields _ hlayout ⟨h.sound, ?_⟩
    exact Nat.le_trans reach_le_append (Nat.le_trans (reach_layout hlayout) h.reach_le)

end Rules

/-! ### Contexts -/

/-- Opening a scope moves no cursor. -/
theorem openScope {k' k : Scope → Exec σ β} (h : Ready m fields s)
    (hk : ∀ scope t, Ready m fields t → k' scope t = k scope t) :
    (Exec.openScope >>= k') s = (Exec.openScope >>= k) s := by
  rw [bind_of_ok (Exec.openScope_eq s), bind_of_ok (Exec.openScope_eq s)]
  exact hk _ _ (h.still (h.sound.newChild s.scope) rfl)

theorem inScope {scope : Scope} (hx : x' { s with scope } = x { s with scope }) :
    Exec.inScope scope x' s = Exec.inScope scope x s := by
  rw [Exec.inScope, Exec.inScope, hx]

theorem inModule {name : Symbol}
    (hx : x' { s with modules := s.modules ++ [name] } =
      x { s with modules := s.modules ++ [name] }) :
    Exec.inModule name x' s = Exec.inModule name x s := by
  rw [Exec.inModule, Exec.inModule, hx]

/-! ### Repetition -/

/-- Parts one behind the other are evaluated by as many matching executions. -/
theorem collect {kind : Node} (hx : Matches m [.nodes kind 1] (fun _ => True) x' x) (n : Nat) :
    Matches m [.nodes kind n] (fun _ => True) (Exec.collect x' n) (Exec.collect x n) where
  agrees {s} h := by
    induction n generalizing s with
    | zero => rfl
    | succ n ih =>
      have hparts : Ready m ([.nodes kind 1] ++ [.nodes kind n]) s :=
        ⟨h.sound, Nat.le_trans reach_nodes_succ h.reach_le⟩
      refine hx.andThen hparts fun a t ht => ?_
      exact bind_eq_bind (ih ht) fun _ _ _ => rfl
  follows := Follows.collect hx.follows n

/-- Statements one behind the other are executed by as many matching executions. -/
theorem sequence {body' body : Exec σ Flow} (hx : Matches m [.statement] (· = .normal) body' body)
    (n : Nat) :
    Matches m [.nodes .statement n] (· = .normal) (Exec.sequence body' n)
      (Exec.sequence body n) where
  agrees {s} h := by
    induction n generalizing s with
    | zero => rfl
    | succ n ih =>
      have hparts : Ready m ([.statement] ++ [.nodes .statement n]) s :=
        ⟨h.sound, Nat.le_trans reach_nodes_succ h.reach_le⟩
      rw [Exec.sequence_succ, Exec.sequence_succ]
      refine hx.bind hparts (fun flow t hflow ht => ?_) fun flow t hflow _ => ?_
      · rw [hflow]
        exact ih ht
      · cases flow with
        | normal => exact absurd rfl hflow
        | breakLoop | returnValue => rfl
  follows := Follows.sequence hx.follows n

/-- Turns that match in every sound store match together. -/
theorem iterate {turn' turn : Exec σ (Option α)}
    (hturn : ∀ s : State σ, Sound m s.store → turn' s = turn s)
    (hsound : ∀ s a t, turn s = .ok a t → Sound m s.store → Sound m t.store) (n : Nat)
    (h : Sound m s.store) : Exec.iterate turn' n s = Exec.iterate turn n s := by
  induction n generalizing s with
  | zero => rfl
  | succ n ih =>
    rw [Exec.iterate, Exec.iterate, hturn s h]
    cases hrun : turn s with
    | error stop t => rfl
    | ok next t =>
      cases next with
      | none => exact ih (hsound s none t hrun h)
      | some a => rfl

end Matches

end Bytewalk
