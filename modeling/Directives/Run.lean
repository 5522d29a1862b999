import Directives.Fault
import Directives.Network
import Directives.Traced

/-! Computations that look things up outside, with a record of what they asked for. -/
namespace Directives

/-- Something that a computation asked for. -/
inductive Call
  | environment (name : String)
  | file (path : String)
  | secret (mount : Option String) (path : String)
  /-- The request was handed over, to be sent. -/
  | request (request : Request)
  /-- Nothing was done for so many seconds. -/
  | pause (seconds : Nat)
  deriving DecidableEq, Repr

abbrev Run.Answer (σ ε α : Type) := Traced.Answer Call σ ε α

/-- A computation over a state of type `σ` that may fail with an `ε` and records its calls. -/
abbrev Run (σ ε : Type) := Traced Call σ ε

namespace Run

export Traced (fail ofExcept record read change)

end Run
end Directives
