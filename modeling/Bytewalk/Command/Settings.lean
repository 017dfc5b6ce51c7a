import Bytewalk.Machine.State
import Bytewalk.Text.Numeral

/-!
# Settings

The settings of a run as the environment gives them. Each setting has a variable; a variable that
is not set leaves the default.
-/

namespace Bytewalk

/-- How a program is to be run. -/
structure Settings where
  /-- The limits, and where the lines go. -/
  machine : Config := { echo := true }
  /-- Which log messages are wanted, if any. -/
  logFilter : Option String := none

/-- A setting that cannot be read. -/
structure SettingFault where
  /-- The variable. -/
  variableName : String
  /-- What is wrong with it. -/
  message : String

namespace Settings

/-- The variable for the number of calls that may be open. -/
def callDepthVariable : String := "CONCUMA_MAX_CALL_DEPTH"

/-- The variable for the number of statements that may be executed. -/
def fuelVariable : String := "CONCUMA_FUEL"

/-- The variable for the wanted log messages. -/
def logVariable : String := "CONCUMA_LOG"

/-- The variable for the wanted log messages when the first is not set. -/
def commonLogVariable : String := "RUST_LOG"

/-- What numbers stay below. -/
def numberBound : Nat := 18446744073709551616

/-- Reads the number that a variable is set to, if it is set. -/
def readNumber (lookup : String → Option String) (name : String) :
    Except SettingFault (Option Nat) :=
  match lookup name with
  | none => .ok none
  | some raw =>
    match Text.readNumeral numberBound (Text.trimChars raw.toList) with
    | .ok n => .ok (some n)
    | .error fault =>
      .error { variableName := name, message := "\x60" ++ raw ++ "\x60: " ++ fault.message }

/-- Reads the call depth, which is not zero. -/
def readCallDepth (lookup : String → Option String) : Except SettingFault (Option Nat) := do
  match ← readNumber lookup callDepthVariable with
  | some 0 => .error { variableName := callDepthVariable, message := "must be at least 1" }
  | depth => return depth

/-- Reads which log messages are wanted. A blank filter wants none, and hides the common one. -/
def readLogFilter (lookup : String → Option String) : Option String :=
  ((lookup logVariable).or (lookup commonLogVariable)).filter fun filter =>
    !(Text.trimChars filter.toList).isEmpty

/-- The settings that an environment gives. The call depth is read first. -/
def ofLookup (lookup : String → Option String) : Except SettingFault Settings := do
  let defaults : Settings := {}
  let depth ← readCallDepth lookup
  let fuel ← readNumber lookup fuelVariable
  return {
    machine := { defaults.machine with
      maxCallDepth := depth.getD defaults.machine.maxCallDepth
      fuel := fuel }
    logFilter := readLogFilter lookup }

end Settings

end Bytewalk
