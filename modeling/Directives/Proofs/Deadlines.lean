import Directives.Proofs.Requests
import Directives.Vault.Session

/-! Deadlines that pass at a request. What is overdue before it is sent is always reported as cancelled. A
read that is overdue while it waits for an answer is reported so too, unless the answer had begun; a login
is not. -/
namespace Directives

namespace Cancel.Token
variable {t : Token} {m : Moment}

theorem check_of_isCancelled (past : t.isCancelled m = true) :
    ∃ reason : Reason, t.check m = .error (.cancelled reason.message) := by
  by_cases raised : m.raised.contains t.family = true
  · exact ⟨.byCaller, by simp only [check, ended?, if_pos raised]⟩
  · rw [isCancelled, Bool.or_eq_true] at past
    have expired : t.isExpired m = true := past.resolve_left raised
    exact ⟨.deadline, by simp only [check, ended?, if_neg raised, if_pos expired]⟩

theorem check_of_not_isCancelled (live : ¬ t.isCancelled m = true) : t.check m = .ok () := by
  rw [isCancelled, Bool.or_eq_true, not_or] at live
  simp only [check, ended?, if_neg live.1, if_neg live.2]

end Cancel.Token

/-- Whether the time ran out before there was a whole answer. -/
def Reply.isLate : Reply → Bool
  | .timedOut => true
  | .stalled status => !Vault.isFailure status
  | .answered _ _ => false
  | .failed _ => false

namespace Vault
variable {σ : Type} {link : Link σ} {context : Context σ}

/-- What comes back for a request, and what is left then, within the time that the token leaves. -/
def awaited (link : Link σ) (context : Context σ) (request : Request) (s : σ) : Reply × σ :=
  link.exchange request (context.token.bound (context.moment s) requestLimit) s

/-- Whether the token is live no longer. -/
abbrev Over (context : Context σ) (s : σ) : Prop := context.token.isCancelled (context.moment s) = true

/-- The token is live no longer when the request is due to start, or else by the time at which it was to
be answered and was not. -/
inductive Overdue (link : Link σ) (context : Context σ) (request : Request) (s : σ) : Prop
  | unsent : Over context s → Overdue link context request s
  | unanswered : ¬ Over context s → (awaited link context request s).1.isLate = true →
    Over context (awaited link context request s).2 → Overdue link context request s

/-- A late answer is a problem, which is a timeout unless the answer had begun. -/
theorem readReply_of_isLate {α : Type} (decoder : Decoder α) (url : String) {reply : Reply}
    (late : reply.isLate = true) :
    ∃ p, readReply decoder url reply = .error p ∧ (p.isTimeout = true ↔ reply = .timedOut) := by
  cases reply with
  | answered status body => cases late
  | failed message => cases late
  | timedOut => exact ⟨_, rfl, by simp [Problem.isTimeout]⟩
  | stalled status =>
    have sound : isFailure status = false := by simpa [Reply.isLate] using late
    exact ⟨_, rfl, by simp [sound, Problem.isTimeout]⟩

namespace Session
variable {host : String} {role : AppRole} {s : σ}

theorem logInAs_of_error (link : Link σ) (host : String) (role : AppRole) {f : Fault}
    (refused : context.token.check (context.moment s) = .error f) :
    logInAs link context host role s = ⟨.error f, s, []⟩ := by
  have checked : (Life.lift context.check s).outcome = .error f := refused
  rw [logInAs, Life.seen, enter, Traced.bind_of_error checked]
  rfl

/-- Nothing is sent to log in under a token that is not live. -/
theorem logInAs_of_over (link : Link σ) (host : String) (role : AppRole) (past : Over context s) :
    ∃ reason : Cancel.Reason,
      logInAs link context host role s = ⟨.error (.cancelled reason.message), s, []⟩ := by
  obtain ⟨reason, refused⟩ := Cancel.Token.check_of_isCancelled past
  exact ⟨reason, logInAs_of_error link host role refused⟩

/-- Under a live token one request is sent, and the login takes what the answer grants. -/
theorem logInAs_of_live (link : Link σ) (host : String) (role : AppRole) (live : ¬ Over context s) :
    let request := loginRequest host role
    let reply := (awaited link context request s).1
    logInAs link context host role s =
      ⟨((readReply Grant.decoder request.url reply).map
          (accept { client := { host }, renewal := .stopped })).mapError loginFault,
        (awaited link context request s).2, [.request request]⟩ := by
  intro request reply
  have checked : (Life.lift context.check s).outcome = .ok () :=
    Cancel.Token.check_of_not_isCancelled live
  rw [logInAs, Life.seen, enter, Traced.bind_of_ok checked]
  simp only [bind, Traced.bind, Life.lift, Life.note, Run.read, Traced.read, Traced.record,
    exchange_apply, Context.check]
  rw [← awaited]
  cases readReply Grant.decoder request.url reply <;> rfl

/-- Under a live token one request is sent, and what is wrong with the answer is told as it is. -/
theorem logInAs_of_problem {p : Problem} (live : ¬ Over context s)
    (refused : readReply Grant.decoder (loginRequest host role).url
      (awaited link context (loginRequest host role) s).1 = .error p) :
    logInAs link context host role s =
      ⟨.error (loginFault p), (awaited link context (loginRequest host role) s).2,
        [.request (loginRequest host role)]⟩ := by
  rw [logInAs_of_live link host role live, refused]
  rfl

/-- A way to log in, how it has come by the role, and what it has asked for until the request is due. -/
inductive LogsIn (link : Link σ) (context : Context σ) (s : σ) :
    Run σ Fault Session → String → AppRole → σ → List Call → Prop
  | withRole (host : String) (role : AppRole) :
    LogsIn link context s (logInAs link context host role) host role s []
  | withCredentials {credentials : Credentials} : credentials.method = appRole →
    LogsIn link context s (logIn link context credentials) credentials.host credentials.role s []
  | fromEnvironment {path : String} {credentials : Credentials} :
    (context.world s).environment.strict? credentialsVariable = some path → path ≠ "" →
    (Credentials.load context path s).outcome = .ok credentials → credentials.method = appRole →
    LogsIn link context s (ofEnvironment link context) credentials.host credentials.role
      (Credentials.load context path s).state
      (.environment credentialsVariable :: (Credentials.load context path s).calls)

/-- However the role is come by, the login ends as it does with the role. -/
theorem LogsIn.ends {m : Run σ Fault Session} {start : σ} {before : List Call}
    (logs : LogsIn link context s m host role start before) :
    m s = ⟨(logInAs link context host role start).outcome, (logInAs link context host role start).state,
      before ++ (logInAs link context host role start).calls⟩ := by
  cases logs with
  | withRole => rfl
  | withCredentials method =>
    rw [logIn, if_pos method]
    rfl
  | fromEnvironment named full loaded method =>
    rw [ofEnvironment_of_named named full, Traced.bind_of_ok loaded, logIn, if_pos method]
    rfl

/-- A login that is overdue is reported as cancelled if it was so before its request was sent, and only
then. -/
theorem LogsIn.overdue {m : Run σ Fault Session} {start : σ} {before : List Call}
    (logs : LogsIn link context s m host role start before)
    (overdue : Overdue link context (loginRequest host role) start) :
    ∃ f, (m s).outcome = .error f ∧ (f.isCancelled = true ↔ Over context start) ∧
      ((∃ reason : Cancel.Reason, f = .cancelled reason.message ∧ (m s).calls = before) ∨
        ∃ p, f = loginFault p ∧ f.kind = .provider "vault" p.message ∧
          (m s).calls = before ++ [.request (loginRequest host role)]) := by
  rw [logs.ends]
  cases overdue with
  | unsent past =>
    obtain ⟨reason, refused⟩ := logInAs_of_over link host role past
    rw [refused]
    exact ⟨_, rfl, iff_of_true rfl past, .inl ⟨reason, rfl, List.append_nil before⟩⟩
  | unanswered live late past =>
    obtain ⟨p, problem, _⟩ := readReply_of_isLate Grant.decoder (loginRequest host role).url late
    rw [logInAs_of_problem live problem]
    have told : (loginFault p).kind = .provider "vault" p.message := rfl
    refine ⟨_, rfl, iff_of_false ?_ live, .inr ⟨p, rfl, told, rfl⟩⟩
    simp [Fault.isCancelled, told]

end Session

namespace Client
variable {c : Client} {path : String} {mount : Option String} {s : σ}

/-- A read that is overdue is reported as cancelled if it was so before its request was sent or if there
was no answer at all, and only then. -/
theorem read_overdue (overdue : Overdue link context (c.readRequest path mount) s) :
    let read := (c.store link context.moment).read context.token path mount s
    let reply := (awaited link context (c.readRequest path mount) s).1
    ∃ f, read.outcome = .error f ∧ (f.isCancelled = true ↔ Over context s ∨ reply = .timedOut) ∧
      ((∃ reason : Cancel.Reason, f = .cancelled reason.message) ∨
        ∃ p : Problem, f = p.readFault s!"secret {(⟨mount, path⟩ : SecretRef).source}") := by
  intro read reply
  cases overdue with
  | unsent past =>
    obtain ⟨reason, refused⟩ := Cancel.Token.check_of_isCancelled past
    have refused : read = _ := store_read_of_error refused
    rw [refused]
    exact ⟨_, rfl, iff_of_true rfl (.inl past), .inl ⟨reason, rfl⟩⟩
  | unanswered live late past =>
    have answered : read = _ := store_read_of_ok (Cancel.Token.check_of_not_isCancelled live)
    obtain ⟨p, problem, silent⟩ := readReply_of_isLate secretDecoder (c.readRequest path mount).url late
    have outcome : read.outcome = .error (readFault context.token ⟨mount, path⟩
        (context.moment (awaited link context (c.readRequest path mount) s).2) p) := by
      rw [answered]
      exact congrArg (Except.mapError _) problem
    have past : context.token.isCancelled
      (context.moment (awaited link context (c.readRequest path mount) s).2) = true := past
    refine ⟨_, outcome, ?_⟩
    -- Only a timeout is held against the token; an answer that stalls is malformed, whatever the time.
    by_cases timeout : p.isTimeout = true
    · rw [readFault, if_pos (by rw [timeout, past]; rfl)]
      exact ⟨iff_of_true rfl (.inr (silent.mp timeout)), .inl ⟨_, rfl⟩⟩
    · rw [readFault, if_neg (by simp [timeout])]
      refine ⟨iff_of_false (by simp [Fault.isCancelled, Problem.readFault, Fault.access]) ?_, .inr ⟨p, rfl⟩⟩
      exact not_or.mpr ⟨live, fun quiet => timeout (silent.mpr quiet)⟩

end Client
end Vault

namespace Builtin
open Walk Expansion Vault
variable {σ : Type} {c : Client} {link : Link σ} {context : Context σ} {limit : Nat}

/-- Where a secret that a walk comes to cannot be read, the walk ends. -/
theorem walk_of_read_error (attached : context.secrets = some (c.store link context.moment)) {t : Tree}
    {w : Walk σ} {a : Arrival σ} (reaches : Reaches registry context limit limit t w a) (fits : 0 < a.room)
    {secret : SecretRef} (asks : secretOf? a.raw = some secret) {f : Fault}
    (failed : ((c.store link context.moment).read context.token secret.path secret.mount
      a.walk.outside).outcome = .error f) :
    (expandTree registry context limit limit t w).outcome = .error (a.place f) := by
  obtain ⟨rest, _, fails⟩ := reaches.walk
  obtain ⟨payload, rfl, found⟩ := secretOf?_eq_some_iff.mp asks
  obtain ⟨trail, places, raw, room, inner⟩ := a
  cases room with
  | zero => exact absurd fits (Nat.lt_irrefl 0)
  | succ room =>
    have refused : (evaluate registry context ((registry : Registry σ).split raw) inner).outcome =
        .error f := by
      cases checked : (context.check inner.outside).outcome with
      | error g =>
        rw [evaluate_of_error found checked]
        have ended : (c.store link context.moment).read context.token (SecretRef.ofText payload).path
            (SecretRef.ofText payload).mount inner.outside = ⟨.error g, inner.outside, []⟩ :=
          Client.store_read_of_error checked
        rw [ended] at failed
        obtain rfl : g = f := Except.error.inj failed
        rfl
      | ok _ =>
        have fetched := fetch_secret attached ((registry : Registry σ).split raw).stem payload checked
        rw [evaluate, found, Traced.bind_of_error]
        rw [fetched, failed]
        rfl
    exact (fails f (by rw [expandDirective_of_error refused])).2

/-- What is told when a deadline passes at a request. Overdue before its request is sent, every operation
is reported as cancelled and sends nothing. Overdue while it waits for the answer, a read is reported so
unless the answer had begun, and else as a failed access; a login never is, but as a failure of its
provider. A walk ends where a read does, with its failure. -/
theorem overdue_reported (c : Client) (link : Link σ) (surroundings : Context σ) (maxDepth : Nat) :
    let context : Context σ :=
      { surroundings with secrets := some (c.store link surroundings.moment) }
    (∀ m s host role start before, Session.LogsIn link context s m host role start before →
      Overdue link context (Session.loginRequest host role) start →
      ∃ f, (m s).outcome = .error f ∧ (f.isCancelled = true ↔ Over context start) ∧
        ((∃ reason : Cancel.Reason, f = .cancelled reason.message ∧ (m s).calls = before) ∨
          ∃ p, f = Session.loginFault p ∧ f.kind = .provider "vault" p.message ∧
            (m s).calls = before ++ [.request (Session.loginRequest host role)])) ∧
    ∀ secret s, Overdue link context (c.requestFor secret) s →
      ∃ f, ((c.store link context.moment).read context.token secret.path secret.mount s).outcome =
          .error f ∧
        (f.isCancelled = true ↔
          Over context s ∨ (awaited link context (c.requestFor secret) s).1 = .timedOut) ∧
        ((∃ reason : Cancel.Reason, f = .cancelled reason.message) ∨
          ∃ p : Problem, f = p.readFault s!"secret {secret.source}") ∧
        ∀ t s' a, Reaches registry context maxDepth maxDepth t { outside := s' } a → 0 < a.room →
          secretOf? a.raw = some secret → a.walk.outside = s →
          (t.resolve registry context maxDepth s').outcome = .error (a.place f) ∧
            (a.place f).kind = f.kind := by
  intro context
  refine ⟨fun m s host role start before logs overdue => logs.overdue overdue,
    fun secret s overdue => ?_⟩
  obtain ⟨f, failed, cancelled, cause⟩ := Client.read_overdue overdue
  refine ⟨f, failed, cancelled, cause, ?_⟩
  rintro t s' a reaches fits asks rfl
  exact ⟨walk_of_read_error rfl reaches fits asks failed, rfl⟩

/-- A server that keeps its clients waiting: it never answers a login, and begins to answer a read. -/
def hanging : Link Cancel.Moment where
  exchange request limit moment :=
    (if request.method = .post then .timedOut else .stalled 200, { moment with now := moment.now + limit })

/-- The deadline passes at a login and at a read, and neither is reported as cancelled. -/
theorem hanging_not_cancelled :
    let context : Context Cancel.Moment :=
      { world := fun _ => {}, moment := id, token := { family := 0, deadline := some 5 } }
    let c : Client := { host := "http://vault" }
    let login := Session.logInAs hanging context c.host {} {}
    let read := (c.store hanging context.moment).read context.token "x" none {}
    Overdue hanging context (Session.loginRequest c.host {}) {} ∧
      context.token.isExpired login.state = true ∧
      (login.outcome.map fun _ => ()) = .error { Fault.provider "vault"
        "http://vault/v1/auth/approle/login: request timed out" with
          help := "Check the AppRole role_id and secret_id in the Vault credentials" } ∧
      Overdue hanging context (c.readRequest "x" none) {} ∧
      context.token.isExpired read.state = true ∧
      (read.outcome.map fun _ => ()) = .error (Fault.access "secret vault:x"
        "http://vault/v1/secret/data/x: malformed response: timeout: global") := by
  intro context c login read
  have live : ¬ Over context {} := by decide
  refine ⟨.unanswered live rfl (by decide +kernel), by decide +kernel, by decide +kernel,
    .unanswered live rfl (by decide +kernel), by decide +kernel, by decide +kernel⟩

end Builtin
end Directives
