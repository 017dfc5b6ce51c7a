import Mathlib.Data.List.Nodup
import Bytewalk.Library.Standard

/-!
# Registration of host functions

A registry is asked to take in functions, one by one or the standard ones together, and to forget
all. Whatever it is asked for, its entries stay well formed. A function that is refused leaves no
trace. The standard functions are not refused together: those in front of the first whose name is
taken stay.

`registrations_exact` is the main result. It rests on `registerAll_append` and
`registerAll_of_refuses`, which tell how it ends to take in functions one after the other.
-/

namespace Bytewalk

namespace Registry

variable {σ : Type} {r : Registry σ} {f : HostFunction σ} {fs rest : List (HostFunction σ)}
  {name reason : String}

/-! ## One function -/

/-- The registry accepts the function: it has a name that is free, and a range that is not
inverted. -/
structure Accepts (r : Registry σ) (f : HostFunction σ) : Prop where
  /-- The function has a name. -/
  named : f.name ≠ ""
  /-- The range of its arity is not inverted. -/
  callable : f.arity.isWellFormed = true
  /-- No function has the name. -/
  free : r.get? f.name = none

/-- The reasons to refuse a function, in words. Each is given only if none before it applies. -/
inductive Refuses (r : Registry σ) (f : HostFunction σ) : String → Prop
  /-- The function has no name. -/
  | unnamed (hname : f.name = "") : Refuses r f "name is empty"
  /-- The range of its arity is inverted. -/
  | uncallable (hname : f.name ≠ "") (harity : f.arity.isWellFormed = false) :
      Refuses r f "arity range is empty"
  /-- Another function has the name. -/
  | taken (hname : f.name ≠ "") (harity : f.arity.isWellFormed = true)
      (htaken : r.get? f.name ≠ none) : Refuses r f "name is already registered"

/-- A function that is not accepted is refused for one of the reasons. -/
theorem accepts_or_refuses (r : Registry σ) (f : HostFunction σ) :
    r.Accepts f ∨ ∃ reason, r.Refuses f reason := by
  by_cases hname : f.name = ""
  · exact .inr ⟨_, .unnamed hname⟩
  cases harity : f.arity.isWellFormed with
  | false => exact .inr ⟨_, .uncallable hname harity⟩
  | true =>
    by_cases hfree : r.get? f.name = none
    · exact .inl ⟨hname, harity, hfree⟩
    · exact .inr ⟨_, .taken hname harity hfree⟩

/-- The registry with further functions. -/
def adjoin (r : Registry σ) (fs : List (HostFunction σ)) : Registry σ :=
  { functions := r.functions ++ fs }

@[simp]
theorem adjoin_nil (r : Registry σ) : r.adjoin [] = r := by
  simp [adjoin]

@[simp]
theorem adjoin_adjoin (r : Registry σ) (fs rest : List (HostFunction σ)) :
    (r.adjoin fs).adjoin rest = r.adjoin (fs ++ rest) := by
  simp [adjoin]

/-- A name stands for one of the further functions only if it has been free. -/
theorem get?_adjoin (r : Registry σ) (fs : List (HostFunction σ)) (name : String) :
    (r.adjoin fs).get? name = (r.get? name).or (fs.find? (·.name = name)) :=
  List.find?_append

theorem register_of_accepts (h : r.Accepts f) : r.register f = .ok (r.adjoin [f]) := by
  obtain ⟨hname, harity, hfree⟩ := h
  have hnone : r.refusal? f = none := by simp [refusal?, contains, hname, harity, hfree]
  rw [register, hnone]
  rfl

theorem register_of_refuses (h : r.Refuses f reason) :
    r.register f = .error (.of (.invalidHost f.name reason)) := by
  have hsome : r.refusal? f = some reason := by
    cases h with
    | unnamed hname => simp [refusal?, hname]
    | uncallable hname harity => simp [refusal?, hname, harity]
    | taken hname harity htaken =>
      simp [refusal?, contains, hname, harity, Option.isSome_iff_ne_none.2 htaken]
  rw [register, hsome]

/-! ## Functions one after the other -/

/-- The registry accepts the functions one after the other. -/
structure AcceptsAll (r : Registry σ) (fs : List (HostFunction σ)) : Prop where
  /-- It accepts every single one. -/
  each : ∀ g ∈ fs, r.Accepts g
  /-- None takes the name of another. -/
  distinct : (fs.map (·.name)).Nodup

/-- Once a function has been taken in, the others are accepted that do not share its name. -/
theorem Accepts.adjoin {g : HostFunction σ} (h : r.Accepts g) (hne : f.name ≠ g.name) :
    (r.adjoin [f]).Accepts g where
  named := h.named
  callable := h.callable
  free := by
    rw [get?_adjoin, h.free, Option.none_or, List.find?_eq_none]
    simpa using hne

theorem acceptsAll_singleton (h : r.Accepts f) : r.AcceptsAll [f] where
  each _ hg := List.mem_singleton.1 hg ▸ h
  distinct := List.nodup_singleton _

/-- Behind the first function, the registry with this function accepts the others. -/
theorem AcceptsAll.tail (h : r.AcceptsAll (f :: rest)) : (r.adjoin [f]).AcceptsAll rest := by
  obtain ⟨hnew, hrest⟩ := List.nodup_cons.1 h.distinct
  refine ⟨fun g hg => (h.each g (List.mem_cons_of_mem f hg)).adjoin fun heq => ?_, hrest⟩
  exact hnew (List.mem_map.2 ⟨g, hg, heq.symm⟩)

/-- Functions that are accepted one after the other are taken in before the rest. -/
theorem registerAll_append (h : r.AcceptsAll fs) (rest : List (HostFunction σ)) :
    r.registerAll (fs ++ rest) = (r.adjoin fs).registerAll rest := by
  induction fs generalizing r with
  | nil => rw [List.nil_append, adjoin_nil]
  | cons f fs ih =>
    have hf : r.Accepts f := h.each f List.mem_cons_self
    calc r.registerAll (f :: (fs ++ rest))
      _ = (r.adjoin [f]).registerAll (fs ++ rest) := by rw [registerAll, register_of_accepts hf]
      _ = ((r.adjoin [f]).adjoin fs).registerAll rest := ih h.tail
      _ = (r.adjoin (f :: fs)).registerAll rest := by rw [adjoin_adjoin, List.singleton_append]

theorem registerAll_of_acceptsAll (h : r.AcceptsAll fs) :
    r.registerAll fs = (.ok (), r.adjoin fs) := by
  have hall := registerAll_append h []
  rwa [List.append_nil, registerAll] at hall

/-- The first function that is refused is reported, and nothing behind it is taken in. -/
theorem registerAll_of_refuses (h : r.AcceptsAll fs) (hf : (r.adjoin fs).Refuses f reason)
    (rest : List (HostFunction σ)) :
    r.registerAll (fs ++ f :: rest) =
      (.error (.of (.invalidHost f.name reason)), r.adjoin fs) := by
  rw [registerAll_append h, registerAll, register_of_refuses hf]

/-- From one registry to the other these functions have come in under their names, and nothing else
has changed. -/
structure Gains (r : Registry σ) (fs : List (HostFunction σ)) (r' : Registry σ) : Prop where
  /-- Each of them is found under its name, which has been free. -/
  new : ∀ f ∈ fs, r.get? f.name = none ∧ r'.get? f.name = some f
  /-- Every other name stands for what it has stood for. -/
  old : ∀ name, name ∉ fs.map (·.name) → r'.get? name = r.get? name
  /-- There are so many functions more. -/
  size : r'.size = r.size + fs.length

/-- Among functions that do not share names, each is found under its own. -/
theorem find?_name (hdistinct : (fs.map (·.name)).Nodup) (hf : f ∈ fs) :
    fs.find? (·.name = f.name) = some f := by
  obtain ⟨g, hg⟩ : ∃ g, fs.find? (·.name = f.name) = some g := by
    rw [← Option.isSome_iff_exists, List.find?_isSome]
    exact ⟨f, hf, by simp⟩
  have hname : g.name = f.name := by simpa using List.find?_some hg
  rw [hg, List.inj_on_of_nodup_map hdistinct (List.mem_of_find?_eq_some hg) hf hname]

theorem AcceptsAll.gains (h : r.AcceptsAll fs) : r.Gains fs (r.adjoin fs) where
  new f hf := by
    have hfree := (h.each f hf).free
    refine ⟨hfree, ?_⟩
    rw [get?_adjoin, hfree, Option.none_or, find?_name h.distinct hf]
  old name hname := by
    have hnone : fs.find? (·.name = name) = none := by
      rw [List.find?_eq_none]
      intro f hf heq
      exact hname (List.mem_map.2 ⟨f, hf, by simpa using heq⟩)
    rw [get?_adjoin, hnone, Option.or_none]
  size := List.length_append

/-! ## Entries -/

/-- The entries are well formed. -/
structure IsSound (r : Registry σ) : Prop where
  /-- No two functions share a name. -/
  distinct : (r.functions.map (·.name)).Nodup
  /-- Every function has a name. -/
  named : ∀ f ∈ r.functions, f.name ≠ ""
  /-- Some call satisfies the arity of every function. -/
  callable : ∀ f ∈ r.functions, ∃ count, f.arity.accepts count = true

theorem isSound_empty : (empty : Registry σ).IsSound where
  distinct := List.nodup_nil
  named _ h := absurd h List.not_mem_nil
  callable _ h := absurd h List.not_mem_nil

theorem IsSound.adjoin (h : r.IsSound) (hfs : r.AcceptsAll fs) : (r.adjoin fs).IsSound where
  distinct := by
    rw [Registry.adjoin, List.map_append, List.nodup_append]
    refine ⟨h.distinct, hfs.distinct, fun a ha b hb => ?_⟩
    obtain ⟨f, hf, rfl⟩ := List.mem_map.1 ha
    obtain ⟨g, hg, rfl⟩ := List.mem_map.1 hb
    intro heq
    have hfound := find?_name h.distinct hf
    have hfree := (hfs.each g hg).free
    rw [← heq, get?, hfound] at hfree
    cases hfree
  named f hf := by
    rcases List.mem_append.1 hf with hf | hf
    · exact h.named f hf
    · exact (hfs.each f hf).named
  callable f hf := by
    rcases List.mem_append.1 hf with hf | hf
    · exact h.callable f hf
    · exact (Arity.isWellFormed_iff _).1 (hfs.each f hf).callable

/-- To take in functions one after the other leaves the entries well formed, also when one of them
is refused. -/
theorem IsSound.registerAll (h : r.IsSound) (fs : List (HostFunction σ)) :
    (r.registerAll fs).2.IsSound := by
  induction fs generalizing r with
  | nil => exact h
  | cons f rest ih =>
    rcases accepts_or_refuses r f with hf | ⟨reason, hf⟩
    · rw [Registry.registerAll, register_of_accepts hf]
      exact ih (h.adjoin (acceptsAll_singleton hf))
    · rw [Registry.registerAll, register_of_refuses hf]
      exact h

/-- What a name stands for is a function of this name. -/
theorem mem_of_get? (h : r.get? name = some f) : f ∈ r.functions ∧ f.name = name :=
  ⟨List.mem_of_find?_eq_some h, by simpa using List.find?_some h⟩

/-! ## Names -/

theorem mem_names_iff : name ∈ r.names ↔ r.get? name ≠ none := by
  rw [names, List.mem_mergeSort, List.mem_map, get?, ← Option.isSome_iff_ne_none, List.find?_isSome]
  simp

theorem length_names (r : Registry σ) : r.names.length = r.size := by
  rw [names, List.length_mergeSort, List.length_map, size]

/-- The names are in order, and none is there twice. -/
theorem IsSound.pairwise_names (h : r.IsSound) : r.names.Pairwise (· < ·) := by
  have hle (a b : String) : (!decide (b < a)) = true ↔ a ≤ b := by
    rw [Bool.not_eq_eq_eq_not, Bool.not_true, decide_eq_false_iff_not, String.not_lt]
  have hsorted : r.names.Pairwise fun a b => !decide (b < a) := by
    refine List.pairwise_mergeSort (fun a b c hab hbc => ?_) (fun a b => ?_) _
    · exact (hle a c).2 (String.le_trans ((hle a b).1 hab) ((hle b c).1 hbc))
    · rw [Bool.or_eq_true, hle, hle]
      exact String.le_total a b
  have hnodup : r.names.Nodup := (List.mergeSort_perm _ _).nodup_iff.2 h.distinct
  refine (hsorted.and hnodup).imp fun {a b} ⟨hab, hne⟩ => ?_
  rw [← String.not_le]
  exact fun hba => hne (String.le_antisymm ((hle a b).1 hab) hba)

/-! ## The standard functions -/

/-- Every standard function has a name and an arity that some call satisfies. -/
theorem wellFormed_standard (now : σ → Binary64) :
    ∀ f ∈ Library.standard now, f.name ≠ "" ∧ f.arity.isWellFormed = true := by
  simp [Library.standard, HostFunction.ofPure, Library.clock, Arity.isWellFormed]

/-- No two standard functions share a name. -/
theorem nodup_standard (now : σ → Binary64) :
    ((Library.standard now).map (·.name)).Nodup := by
  change ["abs", "floor", "ceil", "sqrt", "pow", "min", "max", "len", "upper", "lower", "str",
    "clock"].Nodup
  decide

/-- The standard functions up to some place are accepted one after the other if their names are
free. -/
theorem acceptsAll_standard {now : σ → Binary64} (h : Library.standard now = fs ++ rest)
    (hfree : ∀ f ∈ fs, r.get? f.name = none) : r.AcceptsAll fs where
  each f hf := by
    obtain ⟨hname, harity⟩ := wellFormed_standard now f (h ▸ List.mem_append_left rest hf)
    exact ⟨hname, harity, hfree f hf⟩
  distinct := by
    have hnodup := nodup_standard now
    rw [h, List.map_append] at hnodup
    exact hnodup.of_append_left

/-! ## Requests -/

/-- What is asked of a registry. -/
inductive Request (σ : Type) where
  /-- To take in a function. -/
  | register (f : HostFunction σ)
  /-- To take in a function that is given by its parts. -/
  | registerAction (name : String) (arity : Arity)
    (action : List Value → σ → Except Error Value × σ)
  /-- To take in the standard functions of a host that knows the time. -/
  | registerStandard (now : σ → Binary64)
  /-- To forget all functions. -/
  | clear

/-- The registry that goes on: the new one, or the old one if the function was refused. -/
def settle (r : Registry σ) : Except Error (Registry σ) → Except Error Unit × Registry σ
  | .ok r' => (.ok (), r')
  | .error e => (.error e, r)

/-- The answer to a request, and the registry behind it. -/
def answer (r : Registry σ) : Request σ → Except Error Unit × Registry σ
  | .register f => r.settle (r.register f)
  | .registerAction name arity action => r.settle (r.registerAction name arity action)
  | .registerStandard now => r.registerAll (Library.standard now)
  | .clear => (.ok (), r.clear)

/-- The registry behind the requests, beginning with no function. -/
def ofRequests (requests : List (Request σ)) : Registry σ :=
  requests.foldl (fun r request => (r.answer request).2) .empty

theorem answer_register_of_accepts (h : r.Accepts f) :
    r.answer (.register f) = (.ok (), r.adjoin [f]) := by
  rw [answer, register_of_accepts h, settle]

theorem answer_register_of_refuses (h : r.Refuses f reason) :
    r.answer (.register f) = (.error (.of (.invalidHost f.name reason)), r) := by
  rw [answer, register_of_refuses h, settle]

/-- Where all their names are free, the standard functions are taken in. -/
theorem answer_registerStandard_of_free {now : σ → Binary64}
    (hfree : ∀ f ∈ Library.standard now, r.get? f.name = none) :
    r.AcceptsAll (Library.standard now) ∧
      r.answer (.registerStandard now) = (.ok (), r.adjoin (Library.standard now)) := by
  have hall : r.AcceptsAll (Library.standard now) :=
    acceptsAll_standard (List.append_nil _).symm hfree
  exact ⟨hall, by rw [answer, registerAll_of_acceptsAll hall]⟩

/-- Otherwise they are taken in up to the first whose name is taken. -/
theorem answer_registerStandard_of_taken {now : σ → Binary64}
    (htaken : ¬ ∀ f ∈ Library.standard now, r.get? f.name = none) :
    ∃ before f after, Library.standard now = before ++ f :: after ∧
      (∀ g ∈ before, r.get? g.name = none) ∧ r.get? f.name ≠ none ∧ r.AcceptsAll before ∧
      r.answer (.registerStandard now) =
        (.error (.of (.invalidHost f.name "name is already registered")), r.adjoin before) := by
  obtain ⟨f, hfirst⟩ : ∃ f, (Library.standard now).find? (r.contains ·.name) = some f := by
    rw [← Option.isSome_iff_exists, List.find?_isSome]
    simpa only [contains, Option.isSome_iff_ne_none, not_forall, exists_prop] using htaken
  obtain ⟨hf, before, after, hsplit, hbefore⟩ := List.find?_eq_some_iff_append.1 hfirst
  have hf : r.get? f.name ≠ none := Option.isSome_iff_ne_none.1 hf
  have hfree : ∀ g ∈ before, r.get? g.name = none := by
    intro g hg
    simpa [contains] using hbefore g hg
  have hall := acceptsAll_standard hsplit hfree
  refine ⟨before, f, after, hsplit, hfree, hf, hall, ?_⟩
  -- The functions in front of it have other names, so that its name is taken as it was.
  have hrefused : (r.adjoin before).Refuses f "name is already registered" := by
    obtain ⟨hname, harity⟩ := wellFormed_standard now f (hsplit ▸ by simp)
    refine .taken hname harity fun hnone => hf ?_
    rw [get?_adjoin, Option.or_eq_none_iff] at hnone
    exact hnone.1
  rw [answer, hsplit, registerAll_of_refuses hall hrefused]

/-- Every request leaves the entries well formed. -/
theorem IsSound.answer (h : r.IsSound) (request : Request σ) : (r.answer request).2.IsSound := by
  have hregister (f : HostFunction σ) : (r.answer (.register f)).2.IsSound := by
    rcases accepts_or_refuses r f with hf | ⟨reason, hf⟩
    · rw [answer_register_of_accepts hf]
      exact h.adjoin (acceptsAll_singleton hf)
    · rw [answer_register_of_refuses hf]
      exact h
  cases request with
  | register f => exact hregister f
  | registerAction name arity action => exact hregister { name, arity, action }
  | registerStandard now => exact h.registerAll _
  | clear => exact isSound_empty

theorem isSound_ofRequests (requests : List (Request σ)) : (ofRequests requests).IsSound := by
  suffices hgo : ∀ r : Registry σ, r.IsSound →
      (requests.foldl (fun r request => (r.answer request).2) r).IsSound from hgo _ isSound_empty
  induction requests with
  | nil => exact fun r h => h
  | cons request requests ih => exact fun r h => ih _ (h.answer request)

/-- Whatever is asked of a registry that begins with no function:

- what a name stands for is a function of this name, which is not empty, and some call satisfies the
  arity of the function;
- the names are in increasing order, and there are as many as functions;
- a function is taken in if and only if it has a name, its range is not inverted and the name is
  free. Then it is the only change. Otherwise the first of these reasons that applies is reported,
  and there is no change;
- the standard functions are taken in if and only if all their names are free. Then they are the
  only change. Otherwise the first whose name is taken is reported, and those in front of it are the
  only change. -/
theorem registrations_exact (requests : List (Request σ)) :
    let r := ofRequests requests
    (∀ name f, r.get? name = some f →
      f.name = name ∧ name ≠ "" ∧ ∃ count, f.arity.accepts count = true) ∧
    (r.names.Pairwise (· < ·) ∧ (∀ name, name ∈ r.names ↔ r.get? name ≠ none) ∧
      r.size = r.names.length) ∧
    (∀ f, ((r.answer (.register f)).1 = .ok () ↔ r.Accepts f) ∧
      (r.Accepts f → r.Gains [f] (r.answer (.register f)).2) ∧
      (¬ r.Accepts f → ∃ reason, r.Refuses f reason ∧
        r.answer (.register f) = (.error (.of (.invalidHost f.name reason)), r))) ∧
    (∀ name arity action, r.answer (.registerAction name arity action) =
      r.answer (.register { name, arity, action })) ∧
    ∀ now, let standard := Library.standard now
      let outcome := r.answer (.registerStandard now)
      (outcome.1 = .ok () ↔ ∀ f ∈ standard, r.get? f.name = none) ∧
      ((∀ f ∈ standard, r.get? f.name = none) → r.Gains standard outcome.2) ∧
      ((¬ ∀ f ∈ standard, r.get? f.name = none) → ∃ before f after,
        standard = before ++ f :: after ∧
        (∀ g ∈ before, r.get? g.name = none) ∧ r.get? f.name ≠ none ∧
        outcome.1 = .error (.of (.invalidHost f.name "name is already registered")) ∧
        r.Gains before outcome.2) := by
  intro r
  have hsound : r.IsSound := isSound_ofRequests requests
  refine ⟨fun name f h => ?_, ⟨hsound.pairwise_names, fun name => mem_names_iff,
    (length_names r).symm⟩, fun f => ⟨⟨fun hok => ?_, fun hf => ?_⟩, fun hf => ?_, fun hf => ?_⟩,
    fun name arity action => rfl, fun now => ?_⟩
  · obtain ⟨hmem, rfl⟩ := mem_of_get? h
    exact ⟨rfl, hsound.named f hmem, hsound.callable f hmem⟩
  · rcases accepts_or_refuses r f with hf | ⟨reason, hf⟩
    · exact hf
    · rw [answer_register_of_refuses hf] at hok
      cases hok
  · rw [answer_register_of_accepts hf]
  · rw [answer_register_of_accepts hf]
    exact (acceptsAll_singleton hf).gains
  · obtain ⟨reason, hreason⟩ := (accepts_or_refuses r f).resolve_left hf
    exact ⟨reason, hreason, answer_register_of_refuses hreason⟩
  · intro standard outcome
    by_cases hfree : ∀ f ∈ standard, r.get? f.name = none
    · obtain ⟨hall, hanswer⟩ := answer_registerStandard_of_free hfree
      have houtcome : outcome = (.ok (), r.adjoin standard) := hanswer
      rw [houtcome]
      exact ⟨⟨fun _ => hfree, fun _ => rfl⟩, fun _ => hall.gains, fun h => absurd hfree h⟩
    · obtain ⟨before, f, after, hsplit, hbefore, hf, hall, hanswer⟩ :=
        answer_registerStandard_of_taken hfree
      have houtcome : outcome = (.error _, r.adjoin before) := hanswer
      rw [houtcome]
      exact ⟨⟨nofun, fun h => absurd h hfree⟩, fun h => absurd h hfree,
        fun _ => ⟨before, f, after, hsplit, hbefore, hf, rfl, hall.gains⟩⟩

end Registry

end Bytewalk
