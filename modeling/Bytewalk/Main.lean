import Bytewalk.Command.Launch
import Std.Time.DateTime.Timestamp

/-!
# The command

Reads the arguments, the environment, the clock and the file, and writes what the command answers.
-/

namespace Bytewalk

/-- The fault that an operation on files met. -/
def faultOf : IO.Error → FileFault
  | .noFileOrDirectory .. => .missing
  | .permissionDenied _ code details => .other s!"{details} (os error {code})"
  | .inappropriateType _ code details => .other s!"{details} (os error {code})"
  | e => .other (toString e)

/-- The bytes of a file. -/
def readImage (path : String) : IO (Except FileFault Image) := do
  try
    return .ok (← IO.FS.readBinFile path).data
  catch e =>
    return .error (faultOf e)

/-- The time in seconds since the beginning of 1970. -/
def readClock : IO Binary64 := do
  let nanoseconds := (← Std.Time.Timestamp.now).toNanosecondsSinceUnixEpoch.val
  return .ofFloat (Float.ofNat nanoseconds.toNat / 1e9)

/-- The variables that the settings look up, as far as they are set. -/
def readVariables : IO (List (String × String)) := do
  let names := [Settings.callDepthVariable, Settings.fuelVariable, Settings.logVariable,
    Settings.commonLogVariable]
  names.filterMapM fun name => do
    return (← IO.getEnv name).map (name, ·)

/-- Answers the arguments. -/
def run (args : List String) : IO UInt32 := do
  let settings ← readVariables
  let time ← readClock
  let contents ← match args with
    | [path] => readImage path
    | _ => pure (.error .missing)
  let response := Response.command args (List.lookup · settings) (fun _ => contents) time
  IO.print response.stdout
  IO.eprint response.stderr
  return response.exit

end Bytewalk

/-- Runs the program whose path is the only argument. -/
def main (args : List String) : IO UInt32 :=
  Bytewalk.run args
