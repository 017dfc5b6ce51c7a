import Bytewalk.Arity
import Bytewalk.Error

/-!
# Host functions

Functions that the host lends to programs. They may use and change the state `σ` of the host. A
registry keeps them by name; it takes in only functions that have a name of their own and that
some call satisfies.
-/

namespace Bytewalk

/-- A function of the host. -/
structure HostFunction (σ : Type) where
  /-- The name under which programs find it. -/
  name : String
  /-- How many arguments it takes. -/
  arity : Arity
  /-- What it does with arguments of an accepted number. -/
  action : List Value → σ → Except Error Value × σ

namespace HostFunction

variable {σ : Type}

/-- Calls the function, unless the number of arguments is wrong. -/
def call (f : HostFunction σ) (args : List Value) (host : σ) : Except Error Value × σ :=
  if f.arity.accepts args.length then f.action args host
  else (.error (.of (.arityMismatch f.name f.arity.display args.length)), host)

/-- The function for inspection. -/
def inspect (f : HostFunction σ) : String :=
  "<native fn " ++ f.name ++ "/" ++ f.arity.display ++ ">"

/-- A function that leaves the state of the host alone. -/
def ofPure (name : String) (arity : Arity) (action : List Value → Except Error Value) :
    HostFunction σ :=
  { name, arity, action := fun args host => (action args, host) }

end HostFunction

/-- Host functions by name, in the order of their registration. -/
structure Registry (σ : Type) where
  /-- The functions. -/
  functions : List (HostFunction σ) := []

namespace Registry

variable {σ : Type}

/-- The registry without functions. -/
def empty : Registry σ := {}

/-- The function of a name. -/
def get? (registry : Registry σ) (name : String) : Option (HostFunction σ) :=
  registry.functions.find? (·.name = name)

/-- Whether a name is taken. -/
def contains (registry : Registry σ) (name : String) : Bool :=
  (registry.get? name).isSome

/-- How many functions there are. -/
def size (registry : Registry σ) : Nat :=
  registry.functions.length

/-- The names in increasing order. -/
def names (registry : Registry σ) : List String :=
  (registry.functions.map (·.name)).mergeSort fun a b => !(b < a)

/-- Why a function is not taken in, if it is not. -/
def refusal? (registry : Registry σ) (f : HostFunction σ) : Option String :=
  if f.name.isEmpty then some "name is empty"
  else if !f.arity.isWellFormed then some "arity range is empty"
  else if registry.contains f.name then some "name is already registered"
  else none

/-- Takes a function in. -/
def register (registry : Registry σ) (f : HostFunction σ) : Except Error (Registry σ) :=
  match registry.refusal? f with
  | some reason => .error (.of (.invalidHost f.name reason))
  | none => .ok { functions := registry.functions ++ [f] }

/-- Takes in a function that is given by its parts. -/
def registerAction (registry : Registry σ) (name : String) (arity : Arity)
    (action : List Value → σ → Except Error Value × σ) : Except Error (Registry σ) :=
  registry.register { name, arity, action }

/-- Takes functions in up to the first that is refused, and says whether one was. -/
def registerAll (registry : Registry σ) : List (HostFunction σ) →
    Except Error Unit × Registry σ
  | [] => (.ok (), registry)
  | f :: rest =>
    match registry.register f with
    | .ok registry => registry.registerAll rest
    | .error e => (.error e, registry)

/-- Forgets all functions. -/
def clear (_ : Registry σ) : Registry σ := .empty

end Registry

end Bytewalk
