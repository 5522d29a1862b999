import Directives.Vault.Client
import Directives.Vault.Credentials

/-! Sessions with Vault: a login grants a token for a while, and the token is renewed before the
while is over, until a renewal fails or grants no further time. The caller's reads and the renewal share
the token. Each request shows the token of the moment at which it was made out, and may be sent later. -/
namespace Directives.Vault

def credentialsVariable : String := "VAULT_CONFIG"

def loginPath : String := "auth/approle/login"

def renewalPath : String := "auth/token/renew-self"

/-- A token is renewed five minutes before its lease ends. -/
def renewalBuffer : Nat := 300

def renewalLimit : Nat := 60 * nanosPerSecond

/-- A token, and for how many seconds it is good. -/
structure Grant where
  token : String
  lease : Nat
  deriving DecidableEq, Repr

def Grant.decoder : Decoder Grant := fun d => do
  let inner : Decoder.Record :=
    .named "grant" [.required "client_token" Decoder.text,
      .required "lease_duration" Decoder.word64]
  let outer : Decoder.Record :=
    .named "reply" [.required "auth" fun d => (inner.select d).map fun _ => ()]
  let selected ← Decoder.value (← outer.select d) "auth" inner.select
  return {
    token := ← Decoder.value selected "client_token" Decoder.text
    lease := ← Decoder.value selected "lease_duration" Decoder.word64 }

/-- What is done in the life of a client. -/
inductive Deed
  /-- A request is made out, with the token of the moment. -/
  | drawn (request : Request)
  | call (call : Call)
  /-- What came back for a login or a renewal takes effect. -/
  | settled (reply : Reply) (outcome : Except Problem Grant)

def Deed.call? : Deed → Option Call
  | .call asked => some asked
  | _ => none

/-- The life of a client, or a part of it. -/
abbrev Life (σ ε : Type) := Traced Deed σ ε

namespace Life
variable {σ ε α : Type}

def note (deed : Deed) : Life σ ε Unit := Traced.record deed

def lift (m : Run σ ε α) : Life σ ε α := fun s =>
  let answer := m s
  ⟨answer.outcome, answer.state, answer.calls.map .call⟩

/-- The life as it is seen from outside. -/
def seen (m : Life σ ε α) : Run σ ε α := fun s =>
  let answer := m s
  ⟨answer.outcome, answer.state, answer.calls.filterMap Deed.call?⟩

end Life

/-- How far the renewal of a token has come. -/
inductive Renewal
  /-- The token is good for so many seconds and will be renewed. -/
  | waiting (lease : Nat)
  /-- A renewal was made out. -/
  | drawn (request : Request)
  /-- A renewal was sent; this is what came back. -/
  | answered (request : Request) (reply : Reply)
  | stopped

/-- A token without a lease is not renewed. -/
def Renewal.ofLease (lease : Nat) : Renewal := if lease = 0 then .stopped else .waiting lease

/-- The seconds to wait before a token with such a lease is renewed. -/
def Renewal.pause (lease : Nat) : Nat := lease - renewalBuffer

/-- A client that has logged in, and what goes on with it. -/
structure Session where
  client : Client
  renewal : Renewal
  /-- Reads that were made out and not sent yet, with their limits. -/
  pending : List (Request × Nat) := []
  /-- Whether the caller still has the client. -/
  held : Bool := true

namespace Session
variable {σ ε : Type}

def accept (session : Session) (grant : Grant) : Session :=
  { session with
    client := { session.client with token := grant.token }
    renewal := .ofLease grant.lease }

/-- After a failed renewal the token stays, and is not renewed any more. -/
def settle (session : Session) : Except Problem Grant → Session
  | .ok grant => session.accept grant
  | .error _ => { session with renewal := .stopped }

def loginFault (problem : Problem) : Fault :=
  problem.fault.withHelp "Check the AppRole role_id and secret_id in the Vault credentials"

def loginRequest (host : String) (role : AppRole) : Request :=
  ({ host } : Client).post loginPath [("role_id", role.roleId), ("secret_id", role.secretId)]

def enter (link : Link σ) (context : Context σ) (host : String) (role : AppRole) :
    Life σ Fault Session := do
  Life.lift context.check
  let limit ← Life.lift (Run.read fun s => context.token.bound (context.moment s) requestLimit)
  let request := loginRequest host role
  Life.note (.drawn request)
  let reply ← Life.lift (exchange link request limit)
  let outcome := readReply Grant.decoder request.url reply
  Life.note (.settled reply outcome)
  match outcome with
  | .ok grant => return accept { client := { host }, renewal := .stopped } grant
  | .error problem => Traced.fail (loginFault problem)

def logInAs (link : Link σ) (context : Context σ) (host : String) (role : AppRole) :
    Run σ Fault Session :=
  (enter link context host role).seen

def logIn (link : Link σ) (context : Context σ) (credentials : Credentials) :
    Run σ Fault Session :=
  if credentials.method = appRole then logInAs link context credentials.host credentials.role
  else .fail (Problem.unsupportedMethod credentials.method).fault

def ofEnvironment (link : Link σ) (context : Context σ) : Run σ Fault Session := do
  Run.record (.environment credentialsVariable)
  let path ← Run.read fun s => (context.world s).environment.strict? credentialsVariable
  match path with
  | none | some "" => .fail (.missingVariable credentialsVariable)
  | some path => logIn link context (← Credentials.load context path)

theorem ofEnvironment_of_named {link : Link σ} {context : Context σ} {s : σ} {path : String}
    (named : (context.world s).environment.strict? credentialsVariable = some path) (full : path ≠ "") :
    let entered := (Credentials.load context path >>= logIn link context) s
    ofEnvironment link context s =
      ⟨entered.outcome, entered.state, .environment credentialsVariable :: entered.calls⟩ := by
  intro entered
  simp only [ofEnvironment, Traced.record_bind, Traced.read_bind, named]
  rfl

inductive Event
  /-- The caller makes out a read. -/
  | prepare (path : String) (mount : Option String) (limit : Nat)
  /-- One of the reads that were made out is sent and answered. -/
  | send (position : Nat)
  /-- The wait is over, and a renewal is made out. -/
  | wake
  /-- The renewal is sent and answered. -/
  | renew
  /-- What came back for the renewal takes effect. -/
  | settle
  /-- The caller gives up the client, unless it is still reading. -/
  | release
  deriving DecidableEq, Repr

/-- The session after one event; an event that is not due changes nothing. -/
def step (link : Link σ) (session : Session) : Event → Life σ ε Session
  | .prepare path mount limit => do
    if session.held then
      let request := session.client.readRequest path mount
      Life.note (.drawn request)
      return { session with pending := session.pending ++ [(request, limit)] }
    else return session
  | .send position =>
    match session.pending[position]? with
    | some (request, limit) => do
      let _ ← Life.lift (ask link secretDecoder request limit).attempt
      return { session with pending := session.pending.eraseIdx position }
    | none => return session
  | .wake =>
    match session.renewal, session.held with
    | .waiting lease, true => do
      Life.note (.call (.pause (Renewal.pause lease)))
      let request := session.client.post renewalPath []
      Life.note (.drawn request)
      return { session with renewal := .drawn request }
    | _, _ => return session
  | .renew =>
    match session.renewal with
    | .drawn request => do
      let reply ← Life.lift (exchange link request renewalLimit)
      return { session with renewal := .answered request reply }
    | _ => return session
  | .settle =>
    match session.renewal with
    | .answered request reply => do
      let outcome := readReply Grant.decoder request.url reply
      Life.note (.settled reply outcome)
      return session.settle outcome
    | _ => return session
  | .release => return { session with held := session.held && !session.pending.isEmpty }

def run (link : Link σ) (session : Session) (events : List Event) : Life σ ε Session :=
  events.foldlM (step link) session

/-- A client from its login on. -/
def live (link : Link σ) (context : Context σ) (host : String) (role : AppRole)
    (events : List Event) : Life σ Fault Session := do
  run link (← enter link context host role) events

end Session
end Directives.Vault
