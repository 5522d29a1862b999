import Directives.Network

/-! A client for HTTP. It sends nothing if it does not take the address or the token, or if nobody can
be reached, and it goes after answers that point elsewhere. -/
namespace Directives

/-- The request as it is put on the wire: no part of an address behind the number sign is. -/
def Request.onWire (request : Request) : Request :=
  { request with url := String.ofList (request.url.toList.takeWhile (· ≠ '#')) }

def isRedirect (status : Nat) : Bool := 300 ≤ status && status < 400 && status ≠ 304

def Reply.isRedirect : Reply → Bool
  | .answered status _ => Directives.isRedirect status
  | .stalled status => Directives.isRedirect status
  | .timedOut => false
  | .failed _ => false

namespace Network

/-- A redirected request is sent again as it was under these. Under any other status it becomes one that
only gets. -/
def keepsMethod (status : Nat) : Bool := status = 307 || status = 308

/-- So many answers that point elsewhere are followed in a row. -/
def maxRedirects : Nat := 10

/-- What comes of one attempt to send a request. -/
inductive Attempt
  /-- Nothing was sent, for the given reason; without one, the time had run out. -/
  | unsent (problem : Option String)
  /-- What came back, and the address that it points to, if any. -/
  | sent (reply : Reply) (location : Option String)
  deriving DecidableEq, Repr

structure Sent where
  request : Request
  reply : Reply
  location : Option String := none
  deriving DecidableEq, Repr

structure Transport (σ : Type) where
  /-- Tries to send a request, within so many nanoseconds. -/
  send : Request → (limit : Nat) → σ → Attempt × σ
  /-- The address to which one address points that was asked for under another, or why there is none. -/
  target : (asked : String) → (location : Option String) → Except String String
  /-- The time in nanoseconds. -/
  now : σ → Nat

/-- What comes of a request, and everything that was sent for it. -/
structure Delivery (σ : Type) where
  reply : Reply
  log : List Sent
  state : σ

namespace Transport
variable {σ : Type}

/-- The request with which to follow an answer that points elsewhere, or what comes of it instead. The
token goes along, and no body. -/
def follow (t : Transport σ) (asked : Request) (location : Option String) : Reply → Except Reply Request
  | .answered status _ =>
    match t.target asked.url location with
    | .error problem => .error (.failed problem)
    | .ok url =>
      if keepsMethod status && asked.method = .post then .error (.failed "redirect failed")
      else .ok { asked with method := .get, url, body := none }
  | _ => .error .timedOut

/-- Sends a request, and follows the answers to it. -/
def deliver (t : Transport σ) (redirects : Nat) (request : Request) (limit : Nat) (s : σ) : Delivery σ :=
  match t.send request limit s with
  | (.unsent problem, after) => ⟨problem.elim .timedOut .failed, [], after⟩
  | (.sent reply location, after) =>
    let own : Sent := ⟨request.onWire, reply, location⟩
    if reply.isRedirect then
      match redirects with
      | 0 => ⟨.failed "too many redirects", [own], after⟩
      | left + 1 =>
        match t.follow own.request location reply with
        | .error instead => ⟨instead, [own], after⟩
        | .ok next =>
          let rest := t.deliver left next (limit - (t.now after - t.now s)) after
          ⟨rest.reply, own :: rest.log, rest.state⟩
    else ⟨reply, [own], after⟩
termination_by structural redirects

def link (t : Transport σ) : Link σ where
  exchange request limit s :=
    let delivery := t.deliver maxRedirects request limit s
    (delivery.reply, delivery.state)

end Transport

/-- What is outside, and everything that was sent. -/
structure Wired (σ : Type) where
  outside : σ
  sent : List Sent := []

namespace Transport
variable {σ : Type}

/-- The link over the transport that keeps account of what is sent. -/
def recorded (t : Transport σ) : Link (Wired σ) where
  exchange request limit w :=
    let delivery := t.deliver maxRedirects request limit w.outside
    (delivery.reply, ⟨delivery.state, w.sent ++ delivery.log⟩)

end Transport
end Network
end Directives
