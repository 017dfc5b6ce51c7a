import Mathlib.Data.List.Induction
import Bytewalk.Library.Math
import Bytewalk.Proofs.Number.Order
import Bytewalk.Value.Coercion

/-!
# Least and greatest arguments

The least and the greatest argument are found by going through the arguments once. An argument takes
the place of the best one so far only when it is strictly better. So the first of several equal ones
is kept, with the type that it has, whether the others are integers or not.

`extrema_leftmost` is the main result. It rests on `bestOf_eq_or_beats`, which says what going
through arguments makes of the best one so far, on `extremum_eq_error_iff`, which says when it
fails, and on `isFirstBest_extremum`, which says where the best one stands.
-/

namespace Bytewalk.Library

variable {function : String} {better : Binary64 → Binary64 → Bool} {args more rest : List Value}
  {arg best u v w : Value} {x y : Binary64} {e : Error}

/-! ## Strict preferences -/

/-- A strict preference among numbers. -/
structure IsStrict (better : Binary64 → Binary64 → Bool) : Prop where
  /-- No number is better than itself. -/
  irrefl : ∀ x, better x x = false
  /-- What is better than a better one is better. -/
  trans : ∀ {x y z}, better x y = true → better y z = true → better x z = true
  /-- No number is level with two that are not level with each other. -/
  between : ∀ {x y z}, y.isNaN = false → better x z = true → better x y = true ∨ better y z = true

theorem isStrict_lt : IsStrict Binary64.lt where
  irrefl := Binary64.lt_irrefl
  trans := Binary64.lt_trans
  between := Binary64.lt_or_lt

theorem isStrict_gt : IsStrict fun x y => y.lt x where
  irrefl := Binary64.lt_irrefl
  trans h h' := Binary64.lt_trans h' h
  between hy h := (Binary64.lt_or_lt hy h).symm

/-- Both values are numbers, and the first is better. -/
def Beats (better : Binary64 → Binary64 → Bool) (v w : Value) : Prop :=
  ∃ x y, v.number? = some x ∧ w.number? = some y ∧ better x y = true

theorem beats_iff (hv : v.number? = some x) (hw : w.number? = some y) :
    Beats better v w ↔ better x y = true := by
  simp [Beats, hv, hw]

theorem IsStrict.not_beats_self (hbetter : IsStrict better) (v : Value) : ¬ Beats better v v := by
  rintro ⟨x, y, hx, hy, hxy⟩
  obtain rfl : x = y := Option.some.inj (hx.symm.trans hy)
  exact absurd hxy (by simp [hbetter.irrefl x])

theorem IsStrict.beats_trans (hbetter : IsStrict better) (huv : Beats better u v)
    (hvw : Beats better v w) : Beats better u w := by
  obtain ⟨x, y, hx, hy, hxy⟩ := huv
  obtain ⟨y', z, hy', hz, hyz⟩ := hvw
  obtain rfl : y = y' := Option.some.inj (hy.symm.trans hy')
  exact ⟨x, z, hx, hz, hbetter.trans hxy hyz⟩

theorem IsStrict.beats_or_beats (hbetter : IsStrict better) (hv : v.number? = some y)
    (hnumber : y.isNaN = false) (huw : Beats better u w) : Beats better u v ∨ Beats better v w := by
  obtain ⟨x, z, hx, hz, hxz⟩ := huw
  rw [beats_iff hx hv, beats_iff hv hz]
  exact hbetter.between hnumber hxz

/-- What is greater than another has the other less than itself. -/
theorem beats_gt_iff : Beats (fun x y => y.lt x) v w ↔ Beats Binary64.lt w v :=
  ⟨fun ⟨x, y, hx, hy, h⟩ => ⟨y, x, hy, hx, h⟩, fun ⟨x, y, hx, hy, h⟩ => ⟨y, x, hy, hx, h⟩⟩

theorem beats_lt : Beats Binary64.lt = fun v w => v.less w = .ok true := by
  ext v w
  rw [Beats, Value.less, Value.widened]
  cases v.number? <;> cases w.number? <;> simp

theorem beats_gt : Beats (fun x y => y.lt x) = fun v w => v.greater w = .ok true := by
  ext v w
  rw [Beats, Value.greater, Value.widened]
  cases v.number? <;> cases w.number? <;> simp

/-! ## Going through arguments -/

theorem number_of_number? (h : arg.number? = some x) : number function (some arg) = .ok x := by
  rw [number, Option.bind_some, h]

theorem number?_eq_none_iff : arg.number? = none ↔ arg.isNumeric = false := by
  rw [← Option.isNone_iff_eq_none, ← Option.not_isSome, Value.isSome_number?, Bool.not_eq_true']

theorem number_of_none (h : arg.number? = none) :
    number function (some arg) =
      .error (.of (.invalidArgument function ("expected a number, got " ++ arg.type.name))) := by
  rw [number, Option.bind_some, h]
  rfl

theorem bestOf_cons (harg : arg.number? = some y) :
    bestOf function better best x (arg :: rest) =
      if better y x then bestOf function better arg y rest
      else bestOf function better best x rest := by
  rw [bestOf, number_of_number? harg]
  rfl

theorem bestOf_cons_of_none (harg : arg.number? = none) :
    bestOf function better best x (arg :: rest) =
      .error (.of (.invalidArgument function ("expected a number, got " ++ arg.type.name))) := by
  rw [bestOf, number_of_none harg]
  rfl

theorem extremum_cons (harg : arg.number? = some x) :
    extremum function better (arg :: rest) = bestOf function better arg x rest := by
  rw [extremum, number_of_number? harg]
  rfl

theorem extremum_cons_of_none (harg : arg.number? = none) :
    extremum function better (arg :: rest) =
      .error (.of (.invalidArgument function ("expected a number, got " ++ arg.type.name))) := by
  rw [extremum, number_of_none harg]
  rfl

/-- One more pair of arguments to choose from keeps the first unless the second beats it. -/
theorem extremum_pair (hv : v.number? = some x) (hw : w.number? = some y) :
    extremum function better [v, w] = .ok (if better y x then w else v) := by
  rw [extremum_cons hv, bestOf_cons hw, bestOf, bestOf]
  split <;> rfl

/-- What is found is the best one so far or beats it. -/
theorem bestOf_eq_or_beats (hbetter : IsStrict better) (hbest : best.number? = some x)
    (h : bestOf function better best x args = .ok v) : v = best ∨ Beats better v best := by
  induction args generalizing best x with
  | nil => exact .inl (Except.ok.inj h).symm
  | cons arg rest ih =>
    cases harg : arg.number? with
    | none =>
      rw [bestOf_cons_of_none harg] at h
      cases h
    | some y =>
      rw [bestOf_cons harg] at h
      split at h
      next hyx =>
        have hkept : Beats better arg best := (beats_iff harg hbest).2 hyx
        rcases ih harg h with rfl | hv
        · exact .inr hkept
        · exact .inr (hbetter.beats_trans hv hkept)
      next => exact ih hbest h

/-- Whatever the first argument loses against is found in its place. -/
theorem extremum_cons_eq_or_beats (hbetter : IsStrict better)
    (h : extremum function better (v :: more) = .ok w) : w = v ∨ Beats better w v := by
  cases hv : v.number? with
  | none =>
    rw [extremum_cons_of_none hv] at h
    cases h
  | some x =>
    rw [extremum_cons hv] at h
    exact bestOf_eq_or_beats hbetter hv h

/-- Going on with further arguments starts from what has been found. -/
theorem bestOf_append (hbest : best.number? = some x) :
    bestOf function better best x (args ++ more) =
      (bestOf function better best x args).bind fun v => extremum function better (v :: more) := by
  induction args generalizing best x with
  | nil => exact (extremum_cons hbest).symm
  | cons arg rest ih =>
    cases harg : arg.number? with
    | none =>
      rw [List.cons_append, bestOf_cons_of_none harg, bestOf_cons_of_none harg]
      rfl
    | some y =>
      rw [List.cons_append, bestOf_cons harg, bestOf_cons harg]
      split
      · exact ih harg
      · exact ih hbest

theorem extremum_append (hargs : args ≠ []) :
    extremum function better (args ++ more) =
      (extremum function better args).bind fun v => extremum function better (v :: more) := by
  obtain ⟨arg, rest, rfl⟩ := List.exists_cons_of_ne_nil hargs
  cases harg : arg.number? with
  | none =>
    rw [List.cons_append, extremum_cons_of_none harg, extremum_cons_of_none harg]
    rfl
  | some x =>
    rw [List.cons_append, extremum_cons harg, extremum_cons harg]
    exact bestOf_append harg

/-! ## Complaints -/

/-- The complaint about the first argument that is no number. -/
def mistyped (function : String) (args : List Value) : Option Error :=
  (args.find? fun v => !v.isNumeric).map fun v =>
    .of (.invalidArgument function ("expected a number, got " ++ v.type.name))

/-- What there is to complain about: that there is no argument, or the first that is no number. -/
def complaint (function : String) (args : List Value) : Option Error :=
  if args.isEmpty then some (.of (.invalidArgument function "requires at least one argument"))
  else mistyped function args

theorem mistyped_cons (harg : arg.number? = some x) :
    mistyped function (arg :: rest) = mistyped function rest := by
  have hnumeric : arg.isNumeric = true := by rw [← Value.isSome_number?, harg, Option.isSome_some]
  rw [mistyped, List.find?_cons_of_neg (by rw [hnumeric]; exact Bool.false_ne_true), mistyped]

theorem mistyped_cons_of_none (harg : arg.number? = none) :
    mistyped function (arg :: rest) =
      some (.of (.invalidArgument function ("expected a number, got " ++ arg.type.name))) := by
  rw [number?_eq_none_iff] at harg
  rw [mistyped, List.find?_cons_of_pos (by rw [harg]; rfl), Option.map_some]

/-- Going through arguments fails with the complaint about the first that is no number. -/
theorem bestOf_eq_error_iff (best : Value) (x : Binary64) :
    bestOf function better best x args = .error e ↔ mistyped function args = some e := by
  induction args generalizing best x with
  | nil => exact ⟨nofun, nofun⟩
  | cons arg rest ih =>
    cases harg : arg.number? with
    | none =>
      rw [bestOf_cons_of_none harg, mistyped_cons_of_none harg, Except.error.injEq,
        Option.some.injEq]
    | some y =>
      rw [bestOf_cons harg, mistyped_cons harg]
      split
      · exact ih arg y
      · exact ih best x

theorem extremum_eq_error_iff :
    extremum function better args = .error e ↔ complaint function args = some e := by
  cases args with
  | nil =>
    rw [extremum, complaint, List.isEmpty_nil, if_pos rfl, Except.error.injEq, Option.some.injEq]
  | cons arg rest =>
    rw [complaint, List.isEmpty_cons, if_neg Bool.false_ne_true]
    cases harg : arg.number? with
    | none =>
      rw [extremum_cons_of_none harg, mistyped_cons_of_none harg, Except.error.injEq,
        Option.some.injEq]
    | some y =>
      rw [extremum_cons harg, mistyped_cons harg]
      exact bestOf_eq_error_iff arg y

/-- There is something to complain about exactly when there is no argument or one is no number. -/
theorem exists_complaint_iff (function : String) (args : List Value) :
    (∃ e, complaint function args = some e) ↔ args = [] ∨ ∃ v ∈ args, v.isNumeric = false := by
  rw [← Option.isSome_iff_exists, complaint]
  cases args with
  | nil => simp
  | cons arg rest => simp [mistyped]

/-! ## The first best argument -/

/-- The value is the first argument that no argument beats. -/
def IsFirstBest (beats : Value → Value → Prop) (args : List Value) (v : Value) : Prop :=
  ∃ before after, args = before ++ v :: after ∧ (∀ w ∈ args, ¬ beats w v) ∧
    ∀ u ∈ before, ∃ w ∈ args, beats w u

theorem IsFirstBest.mem {beats : Value → Value → Prop} (h : IsFirstBest beats args v) :
    v ∈ args := by
  obtain ⟨before, after, hargs, -⟩ := h
  rw [hargs]
  exact List.mem_append_right before List.mem_cons_self

/-- One more argument that does not beat the first best one leaves it in its place. -/
theorem IsFirstBest.concat {beats : Value → Value → Prop} (h : IsFirstBest beats args v)
    (hw : ¬ beats w v) : IsFirstBest beats (args ++ [w]) v := by
  obtain ⟨before, after, hargs, hbest, hfirst⟩ := h
  refine ⟨before, after ++ [w], by rw [hargs]; simp, ?_, ?_⟩
  · intro u hu
    rcases List.mem_append.1 hu with hu | hu
    · exact hbest u hu
    · rwa [List.mem_singleton.1 hu]
  · intro u hu
    obtain ⟨w', hw', hbeats⟩ := hfirst u hu
    exact ⟨w', List.mem_append_left _ hw', hbeats⟩

/-- One more argument that beats the first best one beats all the others too. -/
theorem IsFirstBest.concat_of_beats (hbetter : IsStrict better)
    (h : IsFirstBest (Beats better) args v) (hw : Beats better w v)
    (hargs : ∀ u ∈ args, ∃ y, u.number? = some y ∧ y.isNaN = false) :
    IsFirstBest (Beats better) (args ++ [w]) w := by
  obtain ⟨_, _, _, hbest, _⟩ := h
  refine ⟨args, [], rfl, ?_, ?_⟩
  · intro u hu
    rcases List.mem_append.1 hu with hu | hu
    · exact fun huw => hbest u hu (hbetter.beats_trans huw hw)
    · rw [List.mem_singleton.1 hu]
      exact hbetter.not_beats_self w
  · -- Whatever does not beat the old best one is beaten by the new one, as long as it is a number.
    intro u hu
    obtain ⟨y, hy, hnumber⟩ := hargs u hu
    refine ⟨w, List.mem_append_right _ (List.mem_singleton_self w), ?_⟩
    exact (hbetter.beats_or_beats hy hnumber hw).resolve_right (hbest u hu)

/-- What is found among numbers is the first best argument. -/
theorem isFirstBest_extremum (hbetter : IsStrict better)
    (hargs : ∀ u ∈ args, ∃ y, u.number? = some y ∧ y.isNaN = false)
    (h : extremum function better args = .ok v) : IsFirstBest (Beats better) args v := by
  -- The last argument is the one that is compared last.
  induction args using List.reverseRecOn generalizing v with
  | nil => cases h
  | append_singleton args arg ih =>
    obtain ⟨y, hy, -⟩ := hargs arg (List.mem_append_right _ (List.mem_singleton_self arg))
    rcases eq_or_ne args [] with rfl | hne
    · obtain rfl : arg = v := by
        rw [List.nil_append, extremum_cons hy] at h
        exact Except.ok.inj h
      exact ⟨[], [], rfl, by simpa using hbetter.not_beats_self arg, nofun⟩
    · have hfront := fun u hu => hargs u (List.mem_append_left [arg] hu)
      rw [extremum_append hne] at h
      cases hbest : extremum function better args with
      | error e =>
        rw [hbest] at h
        cases h
      | ok best =>
        have hfound := ih hfront hbest
        obtain ⟨x, hx, -⟩ := hfront best hfound.mem
        rw [hbest, Except.bind, extremum_pair hx hy] at h
        obtain rfl := Except.ok.inj h
        split
        next hyx => exact hfound.concat_of_beats hbetter ((beats_iff hy hx).2 hyx) hfront
        next hyx => exact hfound.concat fun hbeats => hyx ((beats_iff hy hx).1 hbeats)

/-! ## Both extrema -/

/-- What a choice among arguments by a preference does. -/
structure SelectsExtremum (function : String) (beats : Value → Value → Prop)
    (select : List Value → Except Error Value) (args : List Value) : Prop where
  /-- It fails with what there is to complain about, and only then. -/
  fails : ∀ e, select args = .error e ↔ complaint function args = some e
  /-- It fails exactly when there is no argument or one is no number. -/
  fails_iff : (∃ e, select args = .error e) ↔ args = [] ∨ ∃ v ∈ args, v.isNumeric = false
  /-- It finds the first argument that no other beats. -/
  leftmost : args ≠ [] → (∀ v ∈ args, v.isNumeric = true) →
    (∀ x, .float x ∈ args → x.isNaN = false) →
      ∃ v, select args = .ok v ∧ IsFirstBest beats args v
  /-- Further arguments leave what it finds or have it find something better. -/
  improves : ∀ more v w, select args = .ok v → select (args ++ more) = .ok w → w = v ∨ beats w v

/-- No argument widens to what is no number if none is such a float. -/
theorem exists_number_of_floats (hnumeric : ∀ v ∈ args, v.isNumeric = true)
    (hfloats : ∀ x, .float x ∈ args → x.isNaN = false) :
    ∀ v ∈ args, ∃ y, v.number? = some y ∧ y.isNaN = false := by
  intro v hv
  cases v with
  | int n => exact ⟨.ofInt32 n, rfl, Binary64.isNaN_ofInt32 n⟩
  | float x => exact ⟨x, rfl, hfloats x hv⟩
  | _ => cases hnumeric _ hv

theorem selectsExtremum_extremum (hbetter : IsStrict better) (function : String)
    (args : List Value) :
    SelectsExtremum function (Beats better) (extremum function better) args where
  fails _ := extremum_eq_error_iff
  fails_iff := by
    rw [← exists_complaint_iff function]
    exact exists_congr fun _ => extremum_eq_error_iff
  leftmost hne hnumeric hfloats := by
    cases h : extremum function better args with
    | error e =>
      have hcomplaint := (exists_complaint_iff function args).1 ⟨e, extremum_eq_error_iff.1 h⟩
      obtain rfl | ⟨v, hv, hmistyped⟩ := hcomplaint
      · exact absurd rfl hne
      · exact absurd (hnumeric v hv) (by simp [hmistyped])
    | ok v =>
      have hnumbers := exists_number_of_floats hnumeric hfloats
      exact ⟨v, rfl, isFirstBest_extremum hbetter hnumbers h⟩
  improves more v w hv hw := by
    rcases eq_or_ne args [] with rfl | hne
    · cases hv
    · rw [extremum_append hne, hv] at hw
      exact extremum_cons_eq_or_beats hbetter hw

/-- **Least and greatest arguments.** Each of the two fails exactly when there is no argument or one
is no number, and then names the first such argument by its type. Otherwise, unless an argument is
not a number in the sense of floating point, it finds the first argument that none is less, or
greater, than. Further arguments make the least no greater and the greatest no less, and the least
never exceeds the greatest. -/
theorem extrema_leftmost (args : List Value) :
    SelectsExtremum "min" (fun v w => v.less w = .ok true) min args ∧
    SelectsExtremum "max" (fun v w => v.greater w = .ok true) max args ∧
    ∀ lo hi, min args = .ok lo → max args = .ok hi → lo = hi ∨ lo.less hi = .ok true := by
  refine ⟨?_, ?_, ?_⟩
  · rw [← beats_lt]
    exact selectsExtremum_extremum isStrict_lt "min" args
  · rw [← beats_gt]
    exact selectsExtremum_extremum isStrict_gt "max" args
  · intro lo hi hlo hhi
    -- The first argument stands between the two.
    cases args with
    | nil => cases hlo
    | cons arg rest =>
      have hleast := extremum_cons_eq_or_beats isStrict_lt hlo
      have hgreatest := extremum_cons_eq_or_beats isStrict_gt hhi
      rw [beats_gt_iff] at hgreatest
      change lo = hi ∨ (fun v w : Value => v.less w = .ok true) lo hi
      rw [← beats_lt]
      rcases hleast with rfl | hleast
      · exact hgreatest.imp Eq.symm id
      · rcases hgreatest with rfl | hgreatest
        · exact .inr hleast
        · exact .inr (isStrict_lt.beats_trans hleast hgreatest)

/-- Among integers and floats that are level, the first is found with the type that it has. -/
theorem extrema_of_mixed :
    (∃ v, min [.int 3, .float (.ofInt32 1), .int 1, .int 3] = .ok v ∧
      IsFirstBest (fun v w => v.less w = .ok true)
        [.int 3, .float (.ofInt32 1), .int 1, .int 3] v) ∧
    min [.int 3, .float (.ofInt32 1), .int 1, .int 3] = .ok (.float (.ofInt32 1)) ∧
    max [.int 3, .float (.ofInt32 1), .int 1, .int 3] = .ok (.int 3) := by
  obtain ⟨hmin, -, -⟩ := extrema_leftmost [.int 3, .float (.ofInt32 1), .int 1, .int 3]
  refine ⟨hmin.leftmost (by decide) (by decide) ?_, by decide, by decide⟩
  intro x hx
  simp only [List.mem_cons, Value.float.injEq, reduceCtorEq, List.not_mem_nil, false_or,
    or_false] at hx
  rw [hx]
  exact Binary64.isNaN_ofInt32 1

end Bytewalk.Library
