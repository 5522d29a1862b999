import Directives.Duration.Literal
import Directives.Integer.Literal
import Directives.Registry

/-! The coercions that every program has: to integers and to durations. -/
namespace Directives.Builtin
variable {σ : Type}

def toInteger : Tree → Except Fault Tree
  | .integer i => .ok (.integer i)
  | .text s =>
    match Integer.int64OfText s with
    | .ok i => .ok (.integer i)
    | .error malformed => .error (.parse s!"parse int {Text.quoted s}: {malformed.message}")
  | other => .error (.typeCoercion "an integer" other.kindName)

/-- A duration, an integer of nanoseconds, or the duration that a text stands for. -/
def toDuration : Tree → Except Fault Tree
  | .duration d => .ok (.duration d)
  | .integer i =>
    match (if 0 ≤ i.toInt then Duration.ofNanos? i.toInt.toNat else none) with
    | some d => .ok (.duration d)
    | none => .error (.parse s!"negative duration: {i.toInt}")
  | .text s =>
    match Duration.ofText s with
    | .ok d => .ok (.duration d)
    | .error malformed => .error (.parse s!"parse duration {Text.quoted s}: {malformed.message}")
  | other => .error (.typeCoercion "a duration" other.kindName)

def integerName : String := "atoi"
def durationName : String := "duration"

def coercions : List (Coercion σ) :=
  [{ name := integerName, apply := fun t => .ofExcept (toInteger t) },
   { name := durationName, apply := fun t => .ofExcept (toDuration t) }]

end Directives.Builtin
