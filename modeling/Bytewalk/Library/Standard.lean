import Bytewalk.Host.Registry
import Bytewalk.Library.Math
import Bytewalk.Library.Texts

/-!
# The standard host functions

The host functions that every program can count on, in the order in which they are registered.
-/

namespace Bytewalk.Library

variable {σ : Type}

/-- The time, which the state of the host tells. -/
def clock (now : σ → Binary64) : HostFunction σ :=
  { name := "clock", arity := .exact 0, action := fun _ host => (.ok (.float (now host)), host) }

/-- The standard host functions of a host that knows the time. -/
def standard (now : σ → Binary64) : List (HostFunction σ) := [
  .ofPure "abs" (.exact 1) abs,
  .ofPure "floor" (.exact 1) floor,
  .ofPure "ceil" (.exact 1) ceil,
  .ofPure "sqrt" (.exact 1) sqrt,
  .ofPure "pow" (.exact 2) pow,
  .ofPure "min" (.variadic 1) min,
  .ofPure "max" (.variadic 1) max,
  .ofPure "len" (.exact 1) len,
  .ofPure "upper" (.exact 1) upper,
  .ofPure "lower" (.exact 1) lower,
  .ofPure "str" (.exact 1) str,
  clock now]

end Bytewalk.Library
