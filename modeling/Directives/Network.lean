/-! Requests over a network, and what comes back. -/
namespace Directives

inductive Request.Method
  | get
  | post
  deriving DecidableEq, Repr

/-- What is sent: where to, the token that goes along, and the fields of the body. -/
structure Request where
  method : Request.Method
  url : String
  token : Option String := none
  body : Option (List (String × String)) := none
  deriving DecidableEq, Repr

inductive Reply
  | answered (status : Nat) (body : String)
  /-- An answer with this status began, and its body did not come to an end in time. -/
  | stalled (status : Nat)
  | timedOut
  /-- Nothing was answered, for the given reason. -/
  | failed (message : String)
  deriving DecidableEq, Repr

/-- A way to have requests answered within so many nanoseconds. What it does on the way to the last answer,
or instead of any, is its own affair. -/
structure Link (σ : Type) where
  exchange : Request → (limit : Nat) → σ → Reply × σ

end Directives
