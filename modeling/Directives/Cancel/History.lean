import Directives.Cancel

/-! Tokens under names, and the steps that make and cancel them. -/
namespace Directives.Cancel

inductive Action
  /-- A token of a new family. -/
  | fresh (name : String)
  /-- A token of a new family that lives for so many nanoseconds. There is none that would live beyond the
  last instant: the program ends where it is asked for, and its history with it. -/
  | timeout (name : String) (span : Nat)
  /-- Another handle with the same family and deadline. -/
  | copy (name target : String)
  /-- Another handle of the same family with a deadline of its own. -/
  | deadline (name target : String) (instant : Nat)
  | cancel (name : String)
  deriving DecidableEq, Repr

/-- The named tokens, the families so far, and those that were cancelled. -/
structure Registered where
  tokens : List (String × Token) := []
  families : Nat := 0
  raised : List Nat := []

namespace Registered

def token? (r : Registered) (name : String) : Option Token := r.tokens.lookup name

def bind (r : Registered) (name : String) (t : Token) : Registered :=
  { r with tokens := (name, t) :: r.tokens }

def moment (r : Registered) (now : Nat) : Moment := { raised := r.raised, now }

/-- The names after an action at an instant; an action on an unknown name does nothing. -/
def act (r : Registered) (now : Nat) : Action → Registered
  | .fresh name => { r.bind name { family := r.families } with families := r.families + 1 }
  | .timeout name span =>
    { r.bind name { family := r.families, deadline := some (now + span) } with
      families := r.families + 1 }
  | .copy name target =>
    match r.token? name with
    | some t => r.bind target t
    | none => r
  | .deadline name target instant =>
    match r.token? name with
    | some t => r.bind target { t with deadline := some instant }
    | none => r
  | .cancel name =>
    match r.token? name with
    | some t => { r with raised := ((r.moment now).raise t.family).raised }
    | none => r

end Registered
end Directives.Cancel
