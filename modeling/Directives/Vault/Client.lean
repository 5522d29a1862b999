import Directives.Decoder
import Directives.Document.Json.Reader
import Directives.Registry
import Directives.Secret
import Directives.Vault.Problem

/-! A client for the secrets that Vault keeps below its mounts. -/
namespace Directives.Vault

def defaultMount : String := "secret"

def requestLimit : Nat := 30 * nanosPerSecond

/-- Where Vault is, the mount for secrets that name none, and the token to show. -/
structure Client where
  host : String
  defaultMount : String := Vault.defaultMount
  token : String := ""
  deriving DecidableEq, Repr

def withoutLeadingSlashes (text : String) : String :=
  String.ofList (text.toList.dropWhile (· = '/'))

def withoutTrailingSlashes (text : String) : String :=
  String.ofList (text.toList.reverse.dropWhile (· = '/')).reverse

namespace Client
variable {σ α : Type}

def url (c : Client) (path : String) : String :=
  withoutTrailingSlashes c.host ++ "/v1/" ++ path

/-- The path of a secret in the interface; slashes around the mount and before the path do not
count. -/
def secretPath (c : Client) (path : String) (mount : Option String) : String :=
  withoutTrailingSlashes (withoutLeadingSlashes (mount.getD c.defaultMount)) ++ "/data/" ++
    withoutLeadingSlashes path

/-- Asks for something. The token goes along, even if it is empty. -/
def get (c : Client) (path : String) : Request :=
  { method := .get, url := c.url path, token := some c.token }

def readRequest (c : Client) (path : String) (mount : Option String) : Request :=
  c.get (c.secretPath path mount)

/-- Sends something. The token goes along, unless it is empty. -/
def post (c : Client) (path : String) (body : List (String × String)) : Request :=
  { method := .post, url := c.url path
    token := if c.token.isEmpty then none else some c.token
    body := some body }

end Client

def isFailure (status : Nat) : Bool := 400 ≤ status && status < 600

/-- What a reply holds. It is the last one: answers that point elsewhere were followed before. -/
def readReply {α : Type} (decoder : Decoder α) (url : String) : Reply → Except Problem α
  | .timedOut => .error (.timeout url)
  | .failed message => .error (.transport url message)
  | .stalled status =>
    .error (if isFailure status then .status url status else .malformed url "timeout: global")
  | .answered status body =>
    if isFailure status then .error (.status url status)
    else
      match Document.Json.read body with
      | none => .error (.malformed url "not a JSON text")
      | some d => (decoder d).mapError fun mismatch => .malformed url mismatch.message

/-- Only an answer whose status reports no failure and whose body can be read holds anything. -/
theorem readReply_eq_ok_iff {α : Type} {decoder : Decoder α} {url : String} {reply : Reply} {a : α} :
    readReply decoder url reply = .ok a ↔ ∃ status body d, reply = .answered status body ∧
      isFailure status = false ∧ Document.Json.read body = some d ∧ decoder d = .ok a := by
  constructor
  · intro done
    cases reply with
    | timedOut => cases done
    | failed message => cases done
    | stalled status => cases done
    | answered status body =>
      rw [readReply] at done
      split at done
      · cases done
      · next sound =>
        split at done
        · cases done
        · next d read =>
          cases decoded : decoder d with
          | error mismatch =>
            rw [decoded] at done
            cases done
          | ok b =>
            rw [decoded] at done
            cases done
            exact ⟨status, body, d, rfl, (Bool.not_eq_true _).mp sound, read, decoded⟩
  · rintro ⟨status, body, d, rfl, sound, read, decoded⟩
    simp only [readReply, sound, read, decoded]
    rfl

/-- Hands a request over, and waits for what comes of it in the end. -/
def exchange {σ ε : Type} (link : Link σ) (request : Request) (limit : Nat) : Run σ ε Reply := do
  Run.record (.request request)
  fun s =>
    let (reply, after) := link.exchange request limit s
    ⟨.ok reply, after, []⟩

theorem exchange_apply {σ ε : Type} (link : Link σ) (request : Request) (limit : Nat) (s : σ) :
    (exchange link request limit : Run σ ε Reply) s =
      ⟨.ok (link.exchange request limit s).1, (link.exchange request limit s).2, [.request request]⟩ :=
  rfl

def ask {σ α : Type} (link : Link σ) (decoder : Decoder α) (request : Request) (limit : Nat) :
    Run σ Problem α := do
  let reply ← exchange link request limit
  Run.ofExcept (readReply decoder request.url reply)

theorem ask_apply {σ α : Type} (link : Link σ) (decoder : Decoder α) (request : Request) (limit : Nat)
    (s : σ) : ask link decoder request limit s =
      ⟨readReply decoder request.url (link.exchange request limit s).1,
        (link.exchange request limit s).2, [.request request]⟩ := by
  rw [ask, Traced.bind_of_ok (congrArg Traced.Answer.outcome (exchange_apply link request limit s)),
    exchange_apply]
  cases readReply decoder request.url (link.exchange request limit s).1 <;> rfl

/-- The fields of a secret in a reply, beside which its metadata stand. -/
def secretDecoder : Decoder (List (String × Tree)) := fun d => do
  let fields := Decoder.fields Decoder.tree
  let inner : Decoder.Record := .named "secret" [.required "data" fields]
  let outer : Decoder.Record :=
    .named "reply" [.required "data" fun d => (inner.select d).map fun _ => ()]
  let selected ← Decoder.value (← outer.select d) "data" inner.select
  Decoder.value selected "data" fields

namespace Client
variable {σ : Type}

def read (c : Client) (link : Link σ) (path : String) (mount : Option String) (limit : Nat) :
    Run σ Problem (List (String × Tree)) :=
  ask link secretDecoder (c.readRequest path mount) limit

/-- The failure to read a secret under a token. If the time ran out for both the request and the
token, that is a cancellation. -/
def readFault (token : Cancel.Token) (secret : SecretRef) (moment : Cancel.Moment) (p : Problem) :
    Fault :=
  if p.isTimeout && token.isCancelled moment then
    .cancelled Cancel.Reason.deadline.message
  else p.readFault s!"secret {secret.source}"

def store (c : Client) (link : Link σ) (moment : σ → Cancel.Moment) : SecretStore σ where
  read token path mount := do
    Run.ofExcept (← Run.read fun s => token.check (moment s))
    let limit ← Run.read fun s => token.bound (moment s) requestLimit
    (c.read link path mount limit).explain fun s => readFault token ⟨mount, path⟩ (moment s)

section
variable {c : Client} {link : Link σ} {moment : σ → Cancel.Moment} {token : Cancel.Token}
  {path : String} {mount : Option String} {s : σ}

/-- Nothing is read under a token that is not live. -/
theorem store_read_of_error {f : Fault} (ended : token.check (moment s) = .error f) :
    (c.store link moment).read token path mount s = ⟨.error f, s, []⟩ := by
  simp only [store, bind, Traced.bind, Run.read, Traced.read, ended, Run.ofExcept, Traced.ofExcept,
    Traced.fail, List.append_nil]

/-- Under a live token one request is handed over, with the time that the token leaves. -/
theorem store_read_of_ok (live : token.check (moment s) = .ok ()) :
    let request := c.readRequest path mount
    let answer := link.exchange request (token.bound (moment s) requestLimit) s
    (c.store link moment).read token path mount s =
      ⟨(readReply secretDecoder request.url answer.1).mapError
        (readFault token ⟨mount, path⟩ (moment answer.2)), answer.2, [.request request]⟩ := by
  intro request answer
  simp only [store, bind, Traced.bind, Run.read, Traced.read, live, Run.ofExcept, Traced.ofExcept,
    Traced.pure, Traced.explain, read, ask_apply, List.nil_append]
  rfl

end

end Client
end Directives.Vault
