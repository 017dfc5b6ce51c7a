import Bytewalk.Machine.Run

/-!
# Sessions

Several runs one after the other with the same host functions. Every run begins with an empty
scope; the host functions, the collected lines and the state of the host stay.
-/

namespace Bytewalk

/-- How a run ends. -/
inductive Outcome where
  /-- After the last statement. -/
  | finished
  /-- With an error. -/
  | failed (e : Error)
  /-- Not within the steps that it was given. -/
  | unfinished
  deriving DecidableEq

/-- What stays between runs. -/
structure Session (σ : Type) where
  /-- The limits of every run. -/
  config : Config := {}
  /-- The host functions. -/
  hosts : Registry σ := {}
  /-- The lines collected so far. -/
  output : Array String := #[]
  /-- The lines echoed so far. -/
  echoed : Array String := #[]
  /-- The state of the host. -/
  host : σ

namespace Session

variable {σ : Type}

/-- A session without host functions. -/
def new (config : Config) (host : σ) : Session σ :=
  { config, host }

/-- Takes in a host function. -/
def register (session : Session σ) (f : HostFunction σ) : Except Error (Session σ) := do
  return { session with hosts := ← session.hosts.register f }

/-- Takes in host functions up to the first that is refused. -/
def registerAll (session : Session σ) (fs : List (HostFunction σ)) :
    Except Error Unit × Session σ :=
  let (result, hosts) := session.hosts.registerAll fs
  (result, { session with hosts })

/-- Runs a program. What it printed stays, also when it fails. -/
def run (session : Session σ) (program : Program) : Outcome × Session σ :=
  let m : Setup σ := { program, hosts := session.hosts, config := session.config }
  let after (s : State σ) : Session σ :=
    { session with output := s.output, echoed := s.echoed, host := s.host }
  match m.runFrom m.steps (.initial session.output session.echoed session.host) with
  | .ok _ s => (.finished, after s)
  | .error (.failed e) s => (.failed e, after s)
  | .error .exhausted s => (.unfinished, after s)

/-- Loads an image and runs it. -/
def runImage (session : Session σ) (image : Image) : Outcome × Session σ :=
  match Program.load image with
  | .ok program => session.run program
  | .error e => (.failed e, session)

/-- Hands out the collected lines and keeps none. -/
def takeOutput (session : Session σ) : Array String × Session σ :=
  (session.output, { session with output := #[] })

/-- Forgets the collected lines. -/
def clearOutput (session : Session σ) : Session σ :=
  { session with output := #[] }

/-- Forgets the host functions. -/
def clearHosts (session : Session σ) : Session σ :=
  { session with hosts := .empty }

/-- Forgets the host functions and the collected lines. -/
def reset (session : Session σ) : Session σ :=
  session.clearHosts.clearOutput

end Session

end Bytewalk
