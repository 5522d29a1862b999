import Directives.Duration
import Directives.Fault

/-! Cancellation: a token belongs to a family that is cancelled as a whole, and may have a deadline
of its own. Instants count nanoseconds. -/
namespace Directives.Cancel

/-- The last instant that the clock can tell. To count on beyond it ends the program. -/
def lastInstant : Nat := 9223372036854775807 * nanosPerSecond + 999999999

/-- A handle on a family of tokens. -/
structure Token where
  family : Nat
  deadline : Option Nat := none
  deriving DecidableEq, Repr

/-- The families that were cancelled, and the present instant. -/
structure Moment where
  raised : List Nat := []
  now : Nat := 0
  deriving DecidableEq, Repr

inductive Reason
  | byCaller
  | deadline
  deriving DecidableEq, Repr

def Reason.message : Reason → String
  | byCaller => "cancelled by caller"
  | deadline => "deadline exceeded"

def Moment.raise (m : Moment) (family : Nat) : Moment :=
  if m.raised.contains family then m else { m with raised := family :: m.raised }

namespace Token

def isExpired (t : Token) (m : Moment) : Bool :=
  match t.deadline with
  | some deadline => deadline ≤ m.now
  | none => false

/-- Why the token is not live at a moment, if it is not. A cancelled family outweighs a deadline. -/
def ended? (t : Token) (m : Moment) : Option Reason :=
  if m.raised.contains t.family then some .byCaller
  else if t.isExpired m then some .deadline
  else none

def isCancelled (t : Token) (m : Moment) : Bool := m.raised.contains t.family || t.isExpired m

def check (t : Token) (m : Moment) : Except Fault Unit :=
  match t.ended? m with
  | some reason => .error (.cancelled reason.message)
  | none => .ok ()

theorem check_error {t : Token} {m : Moment} {f : Fault} (failed : t.check m = .error f) :
    ∃ reason, t.ended? m = some reason ∧ f = .cancelled reason.message := by
  cases ended : t.ended? m with
  | none => simp [check, ended] at failed
  | some reason =>
    simp only [check, ended, Except.error.injEq] at failed
    exact ⟨reason, rfl, failed.symm⟩

def remaining? (t : Token) (m : Moment) : Option Nat := t.deadline.map (· - m.now)

/-- A time limit in nanoseconds, cut short by the deadline. -/
def bound (t : Token) (m : Moment) (limit : Nat) : Nat :=
  match t.remaining? m with
  | some left => min left limit
  | none => limit

end Token
end Directives.Cancel
