import Mathlib.Algebra.Group.Nat.Defs
import Bytewalk.Command.Settings
import Bytewalk.Proofs.Text.Numeral

/-!
# Settings of an environment

Which environments give settings, and which. A variable for a number is not set, or it holds a
numeral of a number below `2 ^ 64` between blanks. Anything else is a fault of this variable, and
the variable for the call depth is looked at first.

`settings_exact` is the main result.
-/

namespace Bytewalk.Settings

variable {lookup : String → Option String} {name : String} {number : Option Nat}
  {fault : SettingFault}

/-! ## Variables for numbers -/

/-- What the text of a variable sets, if it has one. -/
inductive Sets : Option String → Option Nat → Prop
  /-- A variable that is not set leaves the default. -/
  | unset : Sets none none
  /-- A numeral between blanks sets its number, if this has at most 64 bits. -/
  | number {text : String} {n : Nat} (htext : Text.Denotes text.toList n) (hn : n < 2 ^ 64) :
      Sets (some text) (some n)

/-- Exactly what a variable sets is read from it. -/
theorem readNumber_eq_ok_iff : readNumber lookup name = .ok number ↔ Sets (lookup name) number := by
  rw [readNumber]
  cases lookup name with
  | none =>
    constructor
    · intro h
      cases h
      exact .unset
    · intro h
      cases h
      rfl
  | some text =>
    have hread (n : Nat) : Text.readNumeral numberBound (Text.trimChars text.toList) = .ok n ↔
        Text.Denotes text.toList n ∧ n < 2 ^ 64 := by
      rw [Text.readNumeral_eq_ok_iff (by decide), Text.isNumeral_trimChars_iff]
      exact Iff.rfl
    dsimp only
    constructor
    · intro h
      split at h
      next n hn =>
        cases h
        obtain ⟨htext, hlt⟩ := (hread n).1 hn
        exact .number htext hlt
      next => cases h
    · intro h
      cases h with
      | number htext hlt => rw [(hread _).2 ⟨htext, hlt⟩]

/-- A fault names the variable that was read. -/
theorem variableName_of_readNumber (h : readNumber lookup name = .error fault) :
    fault.variableName = name := by
  rw [readNumber] at h
  split at h
  next => cases h
  next =>
    split at h
    next => cases h
    next =>
      cases h
      rfl

/-- No call depth is read but one that is set and not zero. -/
theorem readCallDepth_eq_ok_iff :
    readCallDepth lookup = .ok number ↔
      Sets (lookup callDepthVariable) number ∧ number ≠ some 0 := by
  rw [← readNumber_eq_ok_iff, readCallDepth]
  cases readNumber lookup callDepthVariable with
  | error e => exact ⟨nofun, nofun⟩
  | ok depth =>
    match depth with
    | some 0 =>
      refine ⟨nofun, fun ⟨h, hne⟩ => ?_⟩
      cases h
      exact absurd rfl hne
    | none | some (n + 1) =>
      constructor
      · intro h
        cases h
        exact ⟨rfl, by simp⟩
      · exact And.left

theorem variableName_of_readCallDepth (h : readCallDepth lookup = .error fault) :
    fault.variableName = callDepthVariable := by
  rw [readCallDepth] at h
  cases hread : readNumber lookup callDepthVariable with
  | error e =>
    rw [hread] at h
    cases h
    exact variableName_of_readNumber hread
  | ok depth =>
    rw [hread] at h
    match depth with
    | some 0 =>
      cases h
      rfl
    | none | some (n + 1) => cases h

/-- Zeros in front of the decimal digits and blanks around them make no difference. -/
theorem sets_digits {before after : String} (zeros : Nat) {n : Nat}
    (hbefore : Text.AreBlank before.toList) (hafter : Text.AreBlank after.toList)
    (hn : n < 2 ^ 64) :
    Sets (some (before ++ String.ofList (List.replicate zeros '0') ++ toString n ++ after))
      (some n) := by
  refine .number ⟨_, _, _, hbefore, Text.isNumeral_toDigits zeros n, hafter, ?_⟩ hn
  simp

/-! ## Settings -/

/-- Which log messages two variables ask for. The first one tells if it is set, and a blank text
asks for none. -/
def wantedLog : Option String → Option String → Option String
  | some filter, _ | none, some filter =>
    if Text.AreBlank filter.toList then none else some filter
  | none, none => none

theorem readLogFilter_eq (lookup : String → Option String) :
    readLogFilter lookup = wantedLog (lookup logVariable) (lookup commonLogVariable) := by
  have hblank (filter : String) : (!(Text.trimChars filter.toList).isEmpty) = true ↔
      ¬ Text.AreBlank filter.toList := by
    rw [← Text.trimChars_eq_nil_iff, Bool.not_eq_eq_eq_not, Bool.not_true, Bool.eq_false_iff, ne_eq,
      List.isEmpty_iff]
  have hfilter (filter : String) :
      (some filter).filter (fun text => !(Text.trimChars text.toList).isEmpty) =
        if Text.AreBlank filter.toList then none else some filter := by
    rw [Option.filter_some]
    simp only [hblank, ite_not]
  rw [readLogFilter]
  cases lookup logVariable with
  | some filter => exact hfilter filter
  | none =>
    cases lookup commonLogVariable with
    | some filter => exact hfilter filter
    | none => rfl

/-- The settings of an environment are those that its variables set. -/
theorem ofLookup_eq_ok_iff {s : Settings} :
    ofLookup lookup = .ok s ↔ ∃ depth fuel,
      Sets (lookup callDepthVariable) depth ∧ depth ≠ some 0 ∧ Sets (lookup fuelVariable) fuel ∧
      s = {
        machine := { maxCallDepth := depth.getD 256, fuel, echo := true }
        logFilter := wantedLog (lookup logVariable) (lookup commonLogVariable) } := by
  simp only [← and_assoc, ← readCallDepth_eq_ok_iff]
  simp only [← readNumber_eq_ok_iff, ← readLogFilter_eq]
  rw [ofLookup]
  cases readCallDepth lookup with
  | error e => exact ⟨nofun, nofun⟩
  | ok depth =>
    cases readNumber lookup fuelVariable with
    | error e => exact ⟨nofun, nofun⟩
    | ok fuel =>
      constructor
      · intro h
        cases h
        exact ⟨depth, fuel, ⟨rfl, rfl⟩, rfl⟩
      · rintro ⟨_, _, ⟨⟨⟩, ⟨⟩⟩, rfl⟩
        rfl

/-- The fault of an environment is that of the call depth, or else that of the other number. -/
theorem ofLookup_eq_error (h : ofLookup lookup = .error fault) :
    readCallDepth lookup = .error fault ∨
      (∃ depth, readCallDepth lookup = .ok depth) ∧
        readNumber lookup fuelVariable = .error fault := by
  rw [ofLookup] at h
  cases hdepth : readCallDepth lookup with
  | error e =>
    rw [hdepth] at h
    cases h
    exact .inl rfl
  | ok depth =>
    rw [hdepth] at h
    cases hfuel : readNumber lookup fuelVariable with
    | error e =>
      rw [hfuel] at h
      cases h
      exact .inr ⟨⟨depth, rfl⟩, rfl⟩
    | ok fuel =>
      rw [hfuel] at h
      cases h

/-- The variable for the call depth is not set, or it is set to a number that is not zero. -/
def DepthIsGood (lookup : String → Option String) : Prop :=
  ∃ depth, Sets (lookup callDepthVariable) depth ∧ depth ≠ some 0

/-- The variable for the number of statements is not set, or it is set to a number. -/
def FuelIsGood (lookup : String → Option String) : Prop :=
  ∃ fuel, Sets (lookup fuelVariable) fuel

theorem depthIsGood_iff : DepthIsGood lookup ↔ ∃ depth, readCallDepth lookup = .ok depth := by
  simp only [DepthIsGood, readCallDepth_eq_ok_iff]

theorem fuelIsGood_iff : FuelIsGood lookup ↔ ∃ fuel, readNumber lookup fuelVariable = .ok fuel := by
  simp only [FuelIsGood, readNumber_eq_ok_iff]

/-- The fault of an environment names the first variable for a number that is not good. -/
theorem variableName_of_ofLookup (h : ofLookup lookup = .error fault) :
    (¬ DepthIsGood lookup → fault.variableName = callDepthVariable) ∧
    (DepthIsGood lookup → ¬ FuelIsGood lookup ∧ fault.variableName = fuelVariable) := by
  rw [depthIsGood_iff, fuelIsGood_iff]
  rcases ofLookup_eq_error h with hdepth | ⟨hdepth, hfuel⟩
  · refine ⟨fun _ => variableName_of_readCallDepth hdepth, fun ⟨depth, hok⟩ => ?_⟩
    rw [hdepth] at hok
    cases hok
  · refine ⟨fun hbad => absurd hdepth hbad, fun _ => ⟨fun ⟨fuel, hok⟩ => ?_,
      variableName_of_readNumber hfuel⟩⟩
    rw [hfuel] at hok
    cases hok

/-- An environment gives settings if and only if each of the variables for numbers is not set or is
a numeral between blanks of a number of at most 64 bits, which is not zero for the call depth. The
limits are then these numbers, or the defaults, and the wanted log messages are those that the first
of the other two variables asks for that is set. Otherwise the fault names the variable for the call
depth if this one is bad, and if not the other one. Every such number is set by its decimal digits,
with any zeros in front of them and any blanks around them. -/
theorem settings_exact (lookup : String → Option String) :
    ((∃ s, ofLookup lookup = .ok s) ↔ DepthIsGood lookup ∧ FuelIsGood lookup) ∧
    (∀ s, ofLookup lookup = .ok s →
      (∃ depth, Sets (lookup callDepthVariable) depth ∧
        s.machine.maxCallDepth = depth.getD 256) ∧
      Sets (lookup fuelVariable) s.machine.fuel ∧
      s.logFilter = wantedLog (lookup logVariable) (lookup commonLogVariable)) ∧
    (∀ fault, ofLookup lookup = .error fault →
      (¬ DepthIsGood lookup → fault.variableName = callDepthVariable) ∧
      (DepthIsGood lookup → ¬ FuelIsGood lookup ∧ fault.variableName = fuelVariable)) ∧
    ∀ (before after : String) (zeros n : Nat), Text.AreBlank before.toList →
      Text.AreBlank after.toList → n < 2 ^ 64 →
      let text := before ++ String.ofList (List.replicate zeros '0') ++ toString n ++ after
      (lookup callDepthVariable = some text → n ≠ 0 → FuelIsGood lookup →
        ∃ s, ofLookup lookup = .ok s ∧ s.machine.maxCallDepth = n) ∧
      (lookup fuelVariable = some text → DepthIsGood lookup →
        ∃ s, ofLookup lookup = .ok s ∧ s.machine.fuel = some n) := by
  refine ⟨⟨?_, ?_⟩, fun s hs => ?_, fun fault => variableName_of_ofLookup,
    fun before after zeros n hbefore hafter hn => ?_⟩
  · rintro ⟨s, hs⟩
    obtain ⟨depth, fuel, hdepth, hne, hfuel, -⟩ := ofLookup_eq_ok_iff.1 hs
    exact ⟨⟨depth, hdepth, hne⟩, fuel, hfuel⟩
  · rintro ⟨⟨depth, hdepth, hne⟩, fuel, hfuel⟩
    exact ⟨_, ofLookup_eq_ok_iff.2 ⟨depth, fuel, hdepth, hne, hfuel, rfl⟩⟩
  · obtain ⟨depth, fuel, hdepth, -, hfuel, rfl⟩ := ofLookup_eq_ok_iff.1 hs
    exact ⟨⟨depth, hdepth, rfl⟩, hfuel, rfl⟩
  · intro text
    have htext : Sets (some text) (some n) := sets_digits zeros hbefore hafter hn
    constructor
    · rintro hlookup hne ⟨fuel, hfuel⟩
      refine ⟨_, ofLookup_eq_ok_iff.2 ⟨some n, fuel, hlookup ▸ htext, ?_, hfuel, rfl⟩, rfl⟩
      simpa using hne
    · rintro hlookup ⟨depth, hdepth, hne⟩
      exact ⟨_, ofLookup_eq_ok_iff.2 ⟨depth, some n, hdepth, hne, hlookup ▸ htext, rfl⟩, rfl⟩

end Bytewalk.Settings
