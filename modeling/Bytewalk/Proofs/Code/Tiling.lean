import Bytewalk.Proofs.Code.PassEncoding

/-!
# Tilings

Where the statements of a list begin says how they lie one behind the other: `Image.Tiles` says of
some offsets that the statements there fill the bytes between two bounds without a gap. Tilings are
what passing over the members of a class amounts to:

- `members_eq_ok`: the members that are found are counted and tile the bytes behind their count;
- `Stmt.tiles_starts`: the encodings of statements tile the bytes that they take.
-/

namespace Bytewalk

open Decoder

/-- Statements begin at the offsets, the first one at `p`, and each ends where the next one begins,
the last one at `q`. -/
structure Image.Tiles (image : Image) (offsets : List Nat) (p q : Nat) : Prop where
  /-- The offsets increase. -/
  increasing : offsets.Pairwise (· < ·)
  /-- The first statement begins at the lower bound; without any the bounds are the same. -/
  begins : offsets[0]?.getD q = p
  /-- Passing over a statement leads to the next one, or to the upper bound. -/
  passes : ∀ i (h : i < offsets.length),
    passStatement image offsets[i] = .ok () (offsets[i + 1]?.getD q)

namespace Image.Tiles

variable {image : Image} {offsets : List Nat} {p q : Nat}

/-- No statement begins before the lower bound. -/
theorem le_of_mem (h : image.Tiles offsets p q) : ∀ start ∈ offsets, p ≤ start := by
  cases offsets with
  | nil => exact fun _ hmem => nomatch hmem
  | cons first rest =>
    obtain rfl : first = p := h.begins
    rintro start (_ | ⟨_, hmem⟩)
    · exact Nat.le_refl _
    · exact Nat.le_of_lt (List.rel_of_pairwise_cons h.increasing hmem)

end Image.Tiles

variable {image : Image} {offsets rest : List Nat} {first p q : Nat}

/-- No statements take no bytes. -/
theorem tiles_nil : image.Tiles [] p q ↔ q = p :=
  ⟨fun h => h.begins, fun h => ⟨.nil, h, nofun⟩⟩

/-- One statement is passed over, and the others tile what is behind it. -/
theorem tiles_cons :
    image.Tiles (first :: rest) p q ↔
      first = p ∧ ∃ r, passStatement image p = .ok () r ∧ image.Tiles rest r q := by
  constructor
  · intro h
    obtain rfl : first = p := h.begins
    refine ⟨rfl, rest[0]?.getD q, ?_, h.increasing.tail, rfl, fun i hi => ?_⟩
    · simpa using h.passes 0 (Nat.succ_pos _)
    · simpa using h.passes (i + 1) (Nat.succ_lt_succ hi)
  · rintro ⟨rfl, r, hpass, hrest⟩
    refine ⟨List.pairwise_cons.2 ⟨fun s hs => ?_, hrest.increasing⟩, rfl, fun i hi => ?_⟩
    · exact Nat.lt_of_lt_of_le (passStatement_eq_ok.1 hpass).lt_of_node (hrest.le_of_mem s hs)
    · cases i with
      | zero => simpa [hrest.begins] using hpass
      | succ i => simpa using hrest.passes i (Nat.lt_of_succ_lt_succ hi)

/-! ## Members -/

/-- So many statements are found where they tile the bytes that are passed over. -/
theorem passMembers_eq_ok {n : Nat} :
    passMembers image n p = .ok offsets q ↔ offsets.length = n ∧ image.Tiles offsets p q := by
  induction n generalizing offsets p with
  | zero => cases offsets <;> simp [passMembers, tiles_nil, pure, EStateM.pure, eq_comm]
  | succ n ih =>
    rw [passMembers_succ_eq_ok]
    constructor
    · rintro ⟨r, rest, hfirst, hrest, rfl⟩
      obtain ⟨hlength, htiles⟩ := ih.1 hrest
      exact ⟨congrArg (· + 1) hlength, tiles_cons.2 ⟨rfl, r, hfirst, htiles⟩⟩
    · rintro ⟨hlength, htiles⟩
      cases offsets with
      | nil => cases hlength
      | cons first rest =>
        obtain ⟨rfl, r, hfirst, hrest⟩ := tiles_cons.1 htiles
        exact ⟨r, rest, hfirst, ih.2 ⟨Nat.succ.inj hlength, hrest⟩, rfl⟩

/-- Members are found where as many as their count says tile the bytes behind it. -/
theorem members_eq_ok :
    members image p = .ok offsets q ↔
      (image.int32At p).toInt = offsets.length ∧ offsets.length ≤ image.remaining (p + 4) ∧
        image.Tiles offsets (p + 4) q := by
  constructor
  · intro h
    obtain ⟨n, r, hcount, hmembers⟩ := eq_ok_of_bind h
    obtain ⟨hlength, htiles⟩ := passMembers_eq_ok.1 hmembers
    obtain ⟨hint, hle, rfl⟩ := count_eq_ok.1 hcount
    subst hlength
    exact ⟨hint, by omega, htiles⟩
  · rintro ⟨hint, hle, htiles⟩
    have hcount : count image 1 p = .ok offsets.length (p + 4) :=
      count_eq_ok.2 ⟨hint, by omega, rfl⟩
    exact (bind_of_ok hcount).trans (passMembers_eq_ok.2 ⟨rfl, htiles⟩)

/-- As many statements from the same offset on are the same statements. -/
theorem Image.Tiles.unique {others : List Nat} {r : Nat} (h : image.Tiles offsets p q)
    (h' : image.Tiles others p r) (hlength : offsets.length = others.length) :
    offsets = others ∧ q = r := by
  have hfound := passMembers_eq_ok.2 ⟨hlength, h⟩
  rw [passMembers_eq_ok.2 ⟨rfl, h'⟩] at hfound
  cases hfound
  exact ⟨rfl, rfl⟩

/-! ## Encodings -/

namespace Stmt

/-- Where the encodings of statements begin that stand one behind the other from `p` on. -/
def starts (p : Nat) : List Stmt → List Nat
  | [] => []
  | s :: rest => p :: starts (p + s.encode.length) rest

@[simp]
theorem length_starts (ss : List Stmt) (p : Nat) : (starts p ss).length = ss.length := by
  induction ss generalizing p with
  | nil => rfl
  | cons s rest ih => rw [starts, List.length_cons, List.length_cons, ih]

/-- Encodings one behind the other tile the bytes that they take. -/
theorem tiles_starts {ss : List Stmt} (hss : ∀ s ∈ ss, s.Encodable)
    (h : image.Holds p (encodeAll ss)) :
    image.Tiles (starts p ss) p (p + (encodeAll ss).length) := by
  induction ss generalizing p with
  | nil => exact tiles_nil.2 rfl
  | cons s rest ih =>
    obtain ⟨hs, hrest⟩ := List.forall_mem_cons.1 hss
    rw [encodeAll, List.length_append, ← Nat.add_assoc]
    exact tiles_cons.2 ⟨rfl, _, hs.fills p h.left, ih hrest h.right⟩

/-- Where statements are encoded behind their count, nothing else tiles the bytes. -/
theorem eq_starts_of_holds {ss : List Stmt} (hlength : ss.length < 2 ^ 31)
    (hss : ∀ s ∈ ss, s.Encodable) (h : image.Holds p (Word.ofCount ss.length ++ encodeAll ss))
    (hcount : (image.int32At p).toInt = offsets.length)
    (htiles : image.Tiles offsets (p + 4) q) :
    offsets = starts (p + 4) ss ∧ q = p + 4 + (encodeAll ss).length := by
  have hbehind := h.right
  rw [Word.length_ofCount] at hbehind
  rw [h.left.toInt_int32At hlength] at hcount
  refine htiles.unique (tiles_starts hss hbehind) ?_
  rw [length_starts]
  exact (Int.ofNat.inj hcount).symm

end Stmt

end Bytewalk
