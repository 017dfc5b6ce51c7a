import Bytewalk.Command.Settings
import Bytewalk.Library.Standard
import Bytewalk.Machine.Session

/-!
# Launching

Running one program file with the standard host functions, and the command that does so. What the
command writes and the code with which it exits are a value; files, variables and the time are
handed in.
-/

namespace Bytewalk

/-- Why a file cannot be read. -/
inductive FileFault where
  /-- There is no such file. -/
  | missing
  /-- Another reason, in words. -/
  | other (reason : String)

namespace FileFault

/-- The reason in words. -/
def message : FileFault → String
  | .missing => "No such file or directory (os error 2)"
  | .other reason => reason

end FileFault

/-- Why a file is not run to its end. -/
inductive LaunchError where
  /-- A setting cannot be read. -/
  | setting (fault : SettingFault)
  /-- The file cannot be read. -/
  | unreadable (path : String) (fault : FileFault)
  /-- The program fails. -/
  | program (e : Error)
  /-- The program does not end within the steps it was given. -/
  | unfinished

namespace LaunchError

/-- The error in words, with its trace. -/
def report : LaunchError → String
  | .setting fault => "Error: invalid " ++ fault.variableName ++ ": " ++ fault.message
  | .unreadable path fault => "Error: cannot read " ++ path ++ ": " ++ fault.message
  | .program e => e.report
  | .unfinished => "Error: out of steps"

end LaunchError

/-- What running a file leaves behind. -/
structure Launch where
  /-- The error, if there is one. -/
  error : Option LaunchError
  /-- The collected lines. -/
  output : Array String
  /-- The echoed lines. -/
  echoed : Array String

namespace Launch

/-- A launch that did not get as far as running. -/
def failed (e : LaunchError) : Launch :=
  { error := some e, output := #[], echoed := #[] }

/-- Runs a program in a new session with the standard host functions. -/
def runProgram (config : Config) (program : Program) (time : Binary64) : Launch :=
  match (Session.new config time).registerAll (Library.standard id) with
  | (.error e, _) => failed (.program e)
  | (.ok _, session) =>
    let (outcome, session) := session.run program
    let error := match outcome with
      | .finished => none
      | .failed e => some (.program e)
      | .unfinished => some .unfinished
    { error, output := session.output, echoed := session.echoed }

/-- Runs the file at a path, given what reading it gave. -/
def runFile (settings : Settings) (path : String) (contents : Except FileFault Image)
    (time : Binary64) : Launch :=
  match contents with
  | .error fault => failed (.unreadable path fault)
  | .ok image =>
    match Program.load image with
    | .error e => failed (.program e)
    | .ok program => runProgram settings.machine program time

end Launch

/-- What the command writes, and the code with which it exits. -/
structure Response where
  /-- The exit code. -/
  exit : UInt32
  /-- What goes to the standard output. -/
  stdout : String
  /-- What goes to the standard error output. -/
  stderr : String

namespace Response

/-- Lines as one text. -/
def ofLines (lines : Array String) : String :=
  String.join (lines.toList.map (· ++ "\n"))

/-- A report in red. -/
def inRed (report : String) : String :=
  "\x1b[31m" ++ report ++ "\x1b[0m\n"

/-- How the command is used. -/
def usage : String := "usage: concuma <program>\n"

/-- What the command answers to its arguments: it takes the path of one program. -/
def command (args : List String) (lookup : String → Option String)
    (read : String → Except FileFault Image) (time : Binary64) : Response :=
  match args with
  | [path] =>
    let launch : Launch := match Settings.ofLookup lookup with
      | .error fault => .failed (.setting fault)
      | .ok settings => Launch.runFile settings path (read path) time
    let stdout := ofLines launch.echoed
    match launch.error with
    | none => { exit := 0, stdout, stderr := "" }
    | some e => { exit := 1, stdout, stderr := inRed e.report }
  | _ => { exit := 2, stdout := "", stderr := usage }

end Response

end Bytewalk
