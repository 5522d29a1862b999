import Directives.Proofs.Deadlines
import Directives.Proofs.Failures
import Directives.Proofs.Frames
import Directives.Proofs.Wire

/-! What is sent to log in with the credentials that the environment names: one request, once the credentials
are read, interpolated without a secret store and decoded, and nothing if any of this fails. -/
namespace Directives

/-- The fields of a document: those of an object, or the items of a list under the names for them. -/
def Document.fieldsBy (names : List String) : Document → List (String × Document)
  | object entries => entries
  | list items => names.zip items
  | _ => []

namespace Decoder
variable {α : Type} {decode : Decoder α} {r : Record} {selected : List (String × Document)} {name : String}
  {a : α}

theorem checkItems_eq_zip {position : Nat} {fields : List Field} {items : List Document}
    (done : r.checkItems position fields items = .ok selected) :
    selected = (fields.map Field.name).zip items := by
  induction fields generalizing position items selected with
  | nil =>
    cases items with
    | nil =>
      cases done
      rfl
    | cons d rest => cases done
  | cons field fields ih =>
    cases items with
    | nil =>
      rw [Record.checkItems] at done
      split at done
      · rw [ih done, List.zip_nil_right, List.zip_nil_right]
      · cases done
    | cons d rest =>
      obtain ⟨_, _, done⟩ := exists_of_bind done
      obtain ⟨others, checked, done⟩ := exists_of_bind done
      cases done
      rw [ih checked, List.map_cons, List.zip_cons_cons]

/-- The fields of a record are those of the document. -/
theorem select_eq_fieldsBy {d : Document} (done : r.select d = .ok selected) :
    selected = d.fieldsBy (r.fields.map Field.name) := by
  cases d with
  | object entries =>
    obtain ⟨_, _, done⟩ := exists_of_bind done
    split at done
    · cases done
    · cases done
      rfl
  | list items => exact checkItems_eq_zip done
  | _ => cases done

theorem eq_of_text {d : Document} {content : String} (done : text d = .ok content) : d = .text content := by
  cases d with
  | text s =>
    cases done
    rfl
  | _ => cases done

theorem eq_of_word64 {d : Document} {n : Nat} (done : word64 d = .ok n) : d = .integer n := by
  cases d with
  | integer i =>
    rw [word64, integer] at done
    split at done
    · next bounds =>
      cases done
      rw [Int.toNat_of_nonneg bounds.1]
    · cases done
  | _ => cases done

theorem exists_of_value (done : value selected name decode = .ok a) :
    ∃ d, selected.lookup name = some d ∧ decode d = .ok a := by
  rw [value] at done
  split at done
  · next d found => exact ⟨d, found, done⟩
  · cases done

theorem lookup_of_text {content : String} (done : value selected name text = .ok content) :
    selected.lookup name = some (.text content) := by
  obtain ⟨d, found, decoded⟩ := exists_of_value done
  rw [found, eq_of_text decoded]

theorem exists_of_valueOr {default : α} (done : valueOr selected name decode default = .ok a) :
    (∃ d, selected.lookup name = some d ∧ decode d = .ok a) ∨ selected.lookup name = none ∧ a = default := by
  rw [valueOr] at done
  split at done
  · next d found => exact .inl ⟨d, found, done⟩
  · next missing =>
    cases done
    exact .inr ⟨missing, rfl⟩

end Decoder

namespace Builtin
open Walk Expansion
variable {σ : Type} {context : Context σ} {maxDepth : Nat} {t : Tree} {s : σ}

section
variable (alone : context.secrets = none)
include alone

/-- Without a secret store nothing is sent while a tree is resolved. -/
theorem requests_of_resolve : (t.resolve registry context maxDepth s).calls.filterMap Call.request? = [] := by
  rw [List.filterMap_eq_nil_iff]
  intro call asked
  obtain ⟨⟨event, stack⟩, member, is⟩ := List.mem_filterMap.mp asked
  cases event with
  | lookup other =>
    obtain rfl : other = call := Option.some.inj is
    obtain ⟨token, payload, _, looksUp⟩ := grounded_expandTree t member
    cases looksUp with
    | stored found => rw [alone] at found; cases found
    | _ => rfl
  | directive | resolver | coercion | expand | expanded => cases is

/-- Without a secret store nothing outside changes while a tree is resolved. -/
theorem state_of_resolve : (t.resolve registry context maxDepth s).state = s := by
  have still : Still context (· = s) (context.world s) := by
    constructor
    case world =>
      rintro _ rfl
      rfl
    case stays =>
      intro store found
      rw [alone] at found
      cases found
  exact (Tree.keeps_resolve still maxDepth t).stays rfl

/-- Without a secret store a tree does not resolve that has a directive for a secret come to under a live
token: there is no room for it, or no provider. -/
theorem resolve_of_secret {a : Arrival σ}
    (reaches : Reaches registry context maxDepth maxDepth t { outside := s } a)
    (live : (context.check a.walk.outside).outcome = .ok ()) {secret : SecretRef}
    (asks : secretOf? a.raw = some secret) :
    (t.resolve registry context maxDepth s).outcome = .error (a.place
      (if a.room = 0 then .depthExceeded maxDepth else .noProvider secretToken)) := by
  have refuses : Refuses registry context maxDepth a.room a.raw a.walk none
      (if a.room = 0 then .depthExceeded maxDepth else .noProvider secretToken) := by
    obtain ⟨payload, _, found⟩ := secretOf?_eq_some_iff.mp asks
    obtain ⟨trail, places, raw, room, w⟩ := a
    cases room with
    | zero => exact .depth raw w
    | succ room =>
      refine .fetch ?_
      have refused : (secretResolver.resolve context payload w.outside).outcome =
          .error (.noProvider secretToken) := by
        simp only [secretResolver, alone]
        rfl
      rw [found, fetch_of_ok live]
      exact refused
  exact (reaches.failure refuses).1

end

section
variable {S : σ → Prop} {limit room left : Nat} {inner : Tree} {stack : List String} {place below : Location}
  {raw source target : String}

/-- Below these sources a walk through the tree comes to the directive `target` at this place before it comes
to anything behind it, and has so much room left then. -/
def Leads (context : Context σ) (S : σ → Prop) (limit room : Nat) (t : Tree) (stack : List String)
    (place : Location) (target : String) (left : Nat) : Prop :=
  ∀ w, At S stack w → ∃ a, Reaches registry context limit room t w a ∧ a.raw = target ∧
    a.room = left ∧ a.places.flatten = place ∧ S a.walk.outside

theorem Leads.here (first : t.leaves.head? = some (place, target))
    (directive : ¬ isPlain (registry : Registry σ) target = true) :
    Leads context S limit room t stack place target room := by
  intro w at'
  obtain ⟨rest, split⟩ := List.head?_eq_some_iff.mp first
  refine ⟨_, .here ⟨[], rest, [], split, rfl⟩ directive, rfl, rfl, ?_, at'.1⟩
  exact List.append_nil place

theorem Leads.inside (steady : (registry : Registry σ).Steady context S)
    (first : t.leaves.head? = some (place, raw)) (directive : ¬ isPlain (registry : Registry σ) raw = true)
    (gives : ∀ {w : Walk σ}, S w.outside → (evaluate registry context ((registry : Registry σ).split raw)
      w).outcome = .ok ⟨inner, some source⟩)
    (new : source ∉ stack)
    (leads : Leads context S limit room inner (stack ++ [source]) below target left) :
    Leads context S limit (room + 1) t stack (place ++ below) target left := by
  intro w at'
  obtain ⟨rest, split⟩ := List.head?_eq_some_iff.mp first
  have stays := (steady_evaluate steady raw).stays at'
  have entered : (evaluate registry context ((registry : Registry σ).split raw) w).state.entered?
      (some source) =
        some ((evaluate registry context ((registry : Registry σ).split raw) w).state.below source) := by
    rw [entered?, stays.2, if_neg new]
  have deeper : At S (stack ++ [source])
      ((evaluate registry context ((registry : Registry σ).split raw) w).state.below source) :=
    ⟨stays.1, by rw [below_stack, stays.2]⟩
  obtain ⟨a, reaches, rfl, rfl, rfl, outside⟩ := leads _ deeper
  have reached := Reaches.inside ⟨[], rest, [], split, rfl⟩ directive (gives at'.1) entered reaches
  exact ⟨_, reached, rfl, rfl, rfl, outside⟩

end
end Builtin

namespace Vault
open Network (Transport Wired maxRedirects)
variable {σ : Type} {link : Link σ} {context : Context σ} {s : σ}

structure AppRole.In (role : AppRole) (d : Document) : Prop where
  roleId : (d.fieldsBy ["role_id", "secret_id"]).lookup "role_id" = some (.text role.roleId)
  secretId : (d.fieldsBy ["role_id", "secret_id"]).lookup "secret_id" = some (.text role.secretId)

theorem AppRole.in_of_decoder {role : AppRole} {d : Document} (done : AppRole.decoder d = .ok role) :
    role.In d := by
  obtain ⟨selected, fields, done⟩ := Decoder.exists_of_bind done
  obtain ⟨roleId, first, done⟩ := Decoder.exists_of_bind done
  obtain ⟨secretId, second, done⟩ := Decoder.exists_of_bind done
  cases done
  obtain rfl := Decoder.select_eq_fieldsBy fields
  exact ⟨Decoder.lookup_of_text first, Decoder.lookup_of_text second⟩

/-- The document holds the credentials; the method is empty, and so is the role, where they are left out. -/
structure Credentials.In (credentials : Credentials) (d : Document) : Prop where
  host : (d.fieldsBy ["host", "method", "parameters"]).lookup "host" = some (.text credentials.host)
  method : (d.fieldsBy ["host", "method", "parameters"]).lookup "method" = some (.text credentials.method) ∨
    (d.fieldsBy ["host", "method", "parameters"]).lookup "method" = none ∧ credentials.method = ""
  role : (∃ inner, (d.fieldsBy ["host", "method", "parameters"]).lookup "parameters" = some inner ∧
      credentials.role.In inner) ∨
    (d.fieldsBy ["host", "method", "parameters"]).lookup "parameters" = none ∧ credentials.role = {}

theorem Credentials.in_of_decoder {credentials : Credentials} {d : Document}
    (done : Credentials.decoder d = .ok credentials) : credentials.In d := by
  obtain ⟨selected, fields, done⟩ := Decoder.exists_of_bind done
  obtain ⟨host, first, done⟩ := Decoder.exists_of_bind done
  obtain ⟨method, second, done⟩ := Decoder.exists_of_bind done
  obtain ⟨role, third, done⟩ := Decoder.exists_of_bind done
  cases done
  obtain rfl := Decoder.select_eq_fieldsBy fields
  constructor
  case host => exact Decoder.lookup_of_text first
  case method =>
    rcases Decoder.exists_of_valueOr second with ⟨d, found, decoded⟩ | missing
    · rw [Decoder.eq_of_text decoded] at found
      exact .inl found
    · exact .inr missing
  case role =>
    rcases Decoder.exists_of_valueOr third with ⟨inner, found, decoded⟩ | missing
    · exact .inl ⟨inner, found, AppRole.in_of_decoder decoded⟩
    · exact .inr missing

structure Grant.In (grant : Grant) (d : Document) : Prop where
  auth : ∃ inner, (d.fieldsBy ["auth"]).lookup "auth" = some inner ∧
    (inner.fieldsBy ["client_token", "lease_duration"]).lookup "client_token" = some (.text grant.token) ∧
    (inner.fieldsBy ["client_token", "lease_duration"]).lookup "lease_duration" =
      some (.integer grant.lease)

theorem Grant.in_of_decoder {grant : Grant} {d : Document} (done : Grant.decoder d = .ok grant) :
    grant.In d := by
  obtain ⟨outer, fields, done⟩ := Decoder.exists_of_bind done
  obtain ⟨selected, auth, done⟩ := Decoder.exists_of_bind done
  obtain ⟨token, first, done⟩ := Decoder.exists_of_bind done
  obtain ⟨lease, second, done⟩ := Decoder.exists_of_bind done
  cases done
  obtain ⟨inner, found, chosen⟩ := Decoder.exists_of_value auth
  obtain rfl := Decoder.select_eq_fieldsBy fields
  obtain rfl := Decoder.select_eq_fieldsBy chosen
  obtain ⟨number, given, decoded⟩ := Decoder.exists_of_value second
  rw [Decoder.eq_of_word64 decoded] at given
  exact ⟨inner, found, Decoder.lookup_of_text first, given⟩

/-- The reply is an answer whose status reports no failure and whose body holds the grant. -/
def Grants (reply : Reply) (grant : Grant) : Prop :=
  ∃ status body d, reply = .answered status body ∧ isFailure status = false ∧
    Document.Json.read body = some d ∧ Grant.decoder d = .ok grant ∧ grant.In d

theorem grants_iff {url : String} {reply : Reply} {grant : Grant} :
    readReply Grant.decoder url reply = .ok grant ↔ Grants reply grant := by
  rw [readReply_eq_ok_iff]
  constructor
  · rintro ⟨status, body, d, rfl, sound, read, decoded⟩
    exact ⟨status, body, d, rfl, sound, read, decoded, Grant.in_of_decoder decoded⟩
  · rintro ⟨status, body, d, rfl, sound, read, decoded, _⟩
    exact ⟨status, body, d, rfl, sound, read, decoded⟩

/-- A grant that comes of a request is the last answer that was received, and this one points nowhere. -/
theorem Grants.exists_last {t : Transport σ} {redirects : Nat} {request : Request}
    {delivery : Network.Delivery σ} {grant : Grant} (grants : Grants delivery.reply grant)
    (delivers : t.Delivers redirects request delivery) :
    ∃ e ∈ delivery.log.getLast?, e.reply.isRedirect = false ∧ Grants e.reply grant := by
  obtain ⟨status, body, _, came, _⟩ := id grants
  obtain ⟨e, last, same⟩ := delivers.answered status body came
  rw [← same] at grants
  exact ⟨e, last, by rw [same]; exact delivers.settled, grants⟩

namespace Session

/-- What the tree in a file of credentials comes to. It is interpolated without a secret store. -/
def interpolated (context : Context σ) (s : σ) (raw : Tree) : Run.Answer σ Fault Tree :=
  raw.resolve Builtin.registry { context with secrets := none } defaultMaxDepth s

/-- What has been asked for once the tree in the file of credentials is interpolated. -/
def askedFor (context : Context σ) (s : σ) (path : String) (raw : Tree) : List Call :=
  .environment credentialsVariable :: .file path :: (interpolated context s raw).calls

/-- The environment names a file of credentials, and the tree stands in it. -/
structure Found (context : Context σ) (s : σ) (path : String) (raw : Tree) : Prop where
  named : (context.world s).environment.strict? credentialsVariable = some path
  full : path ≠ ""
  read : Source.read (context.world s).files path = .ok raw

/-- The file of credentials holds these once it is interpolated. -/
structure Held (context : Context σ) (s : σ) (path : String) (raw resolved : Tree)
    (credentials : Credentials) : Prop extends Found context s path raw where
  resolves : (interpolated context s raw).outcome = .ok resolved
  decodes : resolved.decode Credentials.decoder = .ok credentials

/-- Why there is no login, and what was asked for until then. -/
inductive Stops (context : Context σ) (s : σ) : Fault → List Call → Prop
  | unnamed : (context.world s).environment.strict? credentialsVariable = none ∨
      (context.world s).environment.strict? credentialsVariable = some "" →
    Stops context s (.missingVariable credentialsVariable) [.environment credentialsVariable]
  | unread {path : String} {problem : Source.Problem} :
    (context.world s).environment.strict? credentialsVariable = some path → path ≠ "" →
    Source.read (context.world s).files path = .error problem →
    Stops context s (Builtin.fileFault path problem) [.environment credentialsVariable, .file path]
  | unresolved {path : String} {raw : Tree} {f : Fault} : Found context s path raw →
    (interpolated context s raw).outcome = .error f → Stops context s f (askedFor context s path raw)
  | undecoded {path : String} {raw resolved : Tree} {f : Fault} : Found context s path raw →
    (interpolated context s raw).outcome = .ok resolved →
    resolved.decode Credentials.decoder = .error f → Stops context s f (askedFor context s path raw)
  | unsupported {path : String} {raw resolved : Tree} {credentials : Credentials} :
    Held context s path raw resolved credentials → credentials.method ≠ appRole →
    Stops context s (Problem.unsupportedMethod credentials.method).fault (askedFor context s path raw)
  | ended {path : String} {raw resolved : Tree} {credentials : Credentials} {f : Fault} :
    Held context s path raw resolved credentials → credentials.method = appRole →
    context.token.check (context.moment s) = .error f → Stops context s f (askedFor context s path raw)

variable {path : String} {raw resolved : Tree} {credentials : Credentials} {f : Fault} {asked : List Call}

theorem Held.credentials_in (held : Held context s path raw resolved credentials) :
    credentials.In (Document.ofTree resolved).normalize := by
  have decodes := held.decodes
  rw [Tree.decode] at decodes
  split at decodes
  · next decoded =>
    cases decodes
    exact Credentials.in_of_decoder decoded
  · cases decodes

theorem stops_or_held (context : Context σ) (s : σ) : (∃ f asked, Stops context s f asked) ∨
    ∃ path raw resolved credentials, Held context s path raw resolved credentials ∧
      credentials.method = appRole ∧ ¬ Over context s := by
  cases named : (context.world s).environment.strict? credentialsVariable with
  | none => exact .inl ⟨_, _, .unnamed (.inl named)⟩
  | some path =>
    by_cases full : path = ""
    · exact .inl ⟨_, _, .unnamed (.inr (full ▸ named))⟩
    cases read : Source.read (context.world s).files path with
    | error problem => exact .inl ⟨_, _, .unread named full read⟩
    | ok raw =>
      have found : Found context s path raw := ⟨named, full, read⟩
      cases resolves : (interpolated context s raw).outcome with
      | error f => exact .inl ⟨_, _, .unresolved found resolves⟩
      | ok resolved =>
        cases decodes : resolved.decode Credentials.decoder with
        | error f => exact .inl ⟨_, _, .undecoded found resolves decodes⟩
        | ok credentials =>
          have held : Held context s path raw resolved credentials := ⟨found, resolves, decodes⟩
          by_cases method : credentials.method = appRole
          · by_cases past : Over context s
            · obtain ⟨reason, refused⟩ := Cancel.Token.check_of_isCancelled past
              exact .inl ⟨_, _, .ended held method refused⟩
            · exact .inr ⟨path, raw, resolved, credentials, held, method, past⟩
          · exact .inl ⟨_, _, .unsupported held method⟩

theorem load_of_found (found : Found context s path raw) : Credentials.load context path s =
    ⟨(interpolated context s raw).outcome.bind fun resolved => resolved.decode Credentials.decoder, s,
      .file path :: (interpolated context s raw).calls⟩ := by
  have read : Load.readTree (context.world s).files path = .ok raw := by rw [Load.readTree, found.read]
  have alone : ({ context with secrets := none } : Context σ).secrets = none := rfl
  have state : (interpolated context s raw).state = s := Builtin.state_of_resolve alone
  have loaded := Traced.bind_ofExcept_apply
    (raw.resolve Builtin.registry { context with secrets := none } defaultMaxDepth)
    (fun resolved => resolved.decode Credentials.decoder) s
  rw [← interpolated, state] at loaded
  rw [Credentials.load, Traced.record_bind, Traced.read_bind, read]
  exact congrArg (fun answer : Run.Answer σ Fault Credentials =>
    (⟨answer.outcome, answer.state, .file path :: answer.calls⟩ : Run.Answer σ Fault Credentials)) loaded

/-- The login ends as it does with the credentials in the file. -/
theorem ofEnvironment_of_held (link : Link σ) (held : Held context s path raw resolved credentials) :
    let entered := logIn link context credentials s
    ofEnvironment link context s =
      ⟨entered.outcome, entered.state, askedFor context s path raw ++ entered.calls⟩ := by
  intro entered
  have loaded := load_of_found held.toFound
  have done : (Credentials.load context path s).outcome = .ok credentials := by
    rw [loaded, held.resolves]
    exact held.decodes
  rw [ofEnvironment_of_named held.named held.full, Traced.bind_of_ok done, loaded]
  rfl

/-- Where the tree in the file does not come to credentials, neither is there a login. -/
theorem ofEnvironment_of_found (link : Link σ) (found : Found context s path raw)
    (failed : ((interpolated context s raw).outcome.bind fun resolved =>
      resolved.decode Credentials.decoder) = .error f) :
    ofEnvironment link context s = ⟨.error f, s, askedFor context s path raw⟩ := by
  have loaded := load_of_found found
  have refused : (Credentials.load context path s).outcome = .error f := by rw [loaded, failed]
  rw [ofEnvironment_of_named found.named found.full, Traced.bind_of_error refused, loaded]
  rfl

theorem Stops.answer (link : Link σ) (stops : Stops context s f asked) :
    ofEnvironment link context s = ⟨.error f, s, asked⟩ := by
  cases stops with
  | unnamed unset =>
    rcases unset with named | named <;>
    · simp only [ofEnvironment, Traced.record_bind, Traced.read_bind, named]
      rfl
  | @unread path problem named full failed =>
    have read : Load.readTree (context.world s).files path = .error (Builtin.fileFault path problem) := by
      rw [Load.readTree, failed]
    have loaded : Credentials.load context path s =
        ⟨.error (Builtin.fileFault path problem), s, [.file path]⟩ := by
      rw [Credentials.load, Traced.record_bind, Traced.read_bind, read]
      rfl
    have refused : (Credentials.load context path s).outcome = _ := congrArg Traced.Answer.outcome loaded
    rw [ofEnvironment_of_named named full, Traced.bind_of_error refused, loaded]
  | unresolved found failed =>
    refine ofEnvironment_of_found link found ?_
    rw [failed]
    rfl
  | undecoded found resolves failed =>
    refine ofEnvironment_of_found link found ?_
    rw [resolves]
    exact failed
  | unsupported held other =>
    rw [ofEnvironment_of_held link held, logIn, if_neg other]
    simp [Run.fail, Traced.fail]
  | ended held method refused =>
    rw [ofEnvironment_of_held link held, logIn, if_pos method,
      logInAs_of_error link _ _ refused, List.append_nil]

theorem requests_askedFor : (askedFor context s path raw).filterMap Call.request? = [] :=
  Builtin.requests_of_resolve rfl

theorem Stops.requests (stops : Stops context s f asked) : asked.filterMap Call.request? = [] := by
  cases stops with
  | unnamed | unread => rfl
  | unresolved | undecoded | unsupported | ended => exact requests_askedFor

/-- Whatever comes of it, the file that the environment names is looked at first. -/
theorem ofEnvironment_begins (link : Link σ)
    (named : (context.world s).environment.strict? credentialsVariable = some path) (full : path ≠ "") :
    ∃ rest, (ofEnvironment link context s).calls =
      .environment credentialsVariable :: .file path :: rest := by
  obtain ⟨rest, calls⟩ := Traced.bind_calls (Credentials.load context path) (logIn link context) s
  rw [ofEnvironment_of_named named full]
  exact ⟨_, congrArg (List.cons _) calls⟩

/-- What is sent to log in shows no token. -/
theorem loginRequest_eq (host : String) (role : AppRole) : loginRequest host role =
    { method := .post
      url := withoutTrailingSlashes host ++ "/v1/auth/approle/login"
      token := none
      body := some [("role_id", role.roleId), ("secret_id", role.secretId)] } := by
  rw [loginRequest, Client.post, Client.url, String.append_assoc]
  rfl

/-- A login takes effect just if it is granted a token. -/
theorem login_eq_ok_iff {host : String} {url : String} {reply : Reply} {session : Session} :
    ((readReply Grant.decoder url reply).map
        (accept { client := { host }, renewal := .stopped })).mapError loginFault = .ok session ↔
      ∃ grant, Grants reply grant ∧
        session = { client := { host, token := grant.token }, renewal := .ofLease grant.lease } := by
  cases came : readReply Grant.decoder url reply with
  | error p =>
    have none (grant : Grant) : ¬ Grants reply grant := by
      intro grants
      have read : readReply Grant.decoder url reply = .ok grant := grants_iff.mpr grants
      rw [came] at read
      cases read
    exact iff_of_false (fun done => nomatch done) fun ⟨grant, grants, _⟩ => none grant grants
  | ok grant =>
    constructor
    · intro done
      cases done
      exact ⟨grant, grants_iff.mp came, rfl⟩
    · rintro ⟨other, grants, rfl⟩
      obtain rfl : grant = other := Except.ok.inj (came.symm.trans (grants_iff.mpr grants))
      rfl

/-- With credentials for a login under a live token one request is exchanged, at last. -/
theorem Held.answer (link : Link σ) (held : Held context s path raw resolved credentials)
    (method : credentials.method = appRole) (live : ¬ Over context s) :
    let request := loginRequest credentials.host credentials.role
    let answer := ofEnvironment link context s
    answer.calls = askedFor context s path raw ++ [.request request] ∧
      answer.state = (awaited link context request s).2 ∧
      ∀ session, answer.outcome = .ok session ↔ ∃ grant, Grants (awaited link context request s).1 grant ∧
        session =
          { client := { host := credentials.host, token := grant.token }
            renewal := .ofLease grant.lease } := by
  intro request answer
  have ends := ofEnvironment_of_held link held
  rw [logIn, if_pos method, logInAs_of_live link _ _ live] at ends
  refine ⟨congrArg Traced.Answer.calls ends, congrArg Traced.Answer.state ends, fun session => ?_⟩
  rw [show answer.outcome = _ from congrArg Traced.Answer.outcome ends]
  exact login_eq_ok_iff

/-- A directive for a secret in the credentials ends them before anything is sent. -/
theorem Found.stops_at_secret (found : Found context s path raw) {a : Expansion.Arrival σ}
    (reaches : Expansion.Reaches Builtin.registry { context with secrets := none } defaultMaxDepth
      defaultMaxDepth raw { outside := s } a)
    (live : (context.check a.walk.outside).outcome = .ok ()) {secret : SecretRef}
    (asks : Builtin.secretOf? a.raw = some secret) :
    Stops context s (a.place
      (if a.room = 0 then .depthExceeded defaultMaxDepth else .noProvider Builtin.secretToken))
      (askedFor context s path raw) :=
  .unresolved found (Builtin.resolve_of_secret rfl reaches live asks)

/-- A world with these variables and these files, all beside one another. -/
def furnished (settings : List String) (files : List (String × String)) : World where
  environment := ⟨settings.map Text.toUtf8⟩
  files := { nodes := files.map fun (name, content) => ([name], .file (Text.toUtf8 content)) }

/-- The directive for the next of thirty-one variables, and at last for a file. -/
def hop (n : Nat) : String :=
  if n < 31 then Builtin.envToken ++ s!"V{n}" else Builtin.fileToken ++ "last.json"

/-- Credentials with a directive for the first of these variables, and the file with a directive for a
secret. -/
def deep : World :=
  furnished ("VAULT_CONFIG=creds.json" :: (List.range 31).map fun n => s!"V{n}=" ++ hop (n + 1))
    [("creds.json", "\x7b\"parameters\":\x7b\"role_id\":\"ENV->V0\",\"secret_id\":\"s\"\x7d," ++
      "\"host\":\"http://vault\",\"method\":\"approle\"\x7d"), ("last.json", "\"VAULT->x\"")]

theorem deep_hops : ∀ n < 31, deep.environment.text? s!"V{n}" = some (hop (n + 1)) ∧ hop (n + 1) ≠ "" ∧
    Builtin.variableSource s!"V{n}" ∉ (List.range n).map fun k => Builtin.variableSource s!"V{k}" := by
  decide +kernel

theorem deep_unsuffixed : ∀ n < 31, Builtin.Unsuffixed s!"V{n}" := by
  unfold Builtin.Unsuffixed
  decide +kernel

/-- From a directive for one of the variables on, a walk comes to the directive for a secret in the file. -/
theorem deep_leads {room n : Nat} {t : Tree} {place : Location} (whole : room + n = 31)
    (first : t.leaves.head? = some (place, hop n)) : Builtin.Leads (Context.ofWorlds none) (· = deep) 32
      (room + 1) t ((List.range n).map fun k => Builtin.variableSource s!"V{k}") place "VAULT->x" 0 := by
  have fixed := Builtin.Fixed.ofWorlds deep
  induction room generalizing n t place with
  | zero =>
    obtain rfl : n = 31 := by omega
    have read : Source.read deep.files "last.json" = .ok (.text "VAULT->x") := by
      have content : deep.files.read "last.json" = .ok "\"VAULT->x\"" :=
        Files.read_beside (by simp) (by decide +kernel) (by decide +kernel) (by decide) (by decide +kernel)
          rfl
      exact (Source.read_of_text content).trans (by decide +kernel)
    have unsuffixed : Builtin.Unsuffixed "last.json" := by
      unfold Builtin.Unsuffixed
      decide
    have new : Builtin.fileSource deep.files "last.json" ∉
        (List.range 31).map fun k => Builtin.variableSource s!"V{k}" := by
      intro again
      obtain ⟨k, _, same⟩ := List.mem_map.mp again
      exact (Builtin.sources_apart deep.files _ "last.json" "").1 same
    rw [← List.append_nil place]
    exact Builtin.Leads.inside fixed.steady first (Builtin.isPlain_file unsuffixed)
      (fixed.evaluate_file read unsuffixed) new (Builtin.Leads.here rfl (by decide +kernel))
  | succ room ih =>
    have small : n < 31 := by omega
    obtain ⟨set, full, new⟩ := deep_hops n small
    have unsuffixed := deep_unsuffixed n small
    have next : (Tree.text (hop (n + 1))).leaves.head? = some ([], hop (n + 1)) := rfl
    have rest := ih (by omega) next
    rw [List.range_succ, List.map_append] at rest
    rw [hop, if_pos small] at first
    rw [← List.append_nil place]
    exact Builtin.Leads.inside fixed.steady first (Builtin.isPlain_env unsuffixed)
      (fixed.evaluate_env set full unsuffixed) new rest

/-- What a server answers that grants a token. -/
def grantBody : String := "\x7b\"auth\":\x7b\"client_token\":\"t\",\"lease_duration\":60\x7d\x7d"

/-- A server that answers so, under this status, whatever it is asked for. -/
def granting {σ : Type} (status : Nat) : Transport σ := .answering fun _ => (.answered status grantBody, none)

theorem found_beside {context : Context σ} {s : σ} {settings : List String} {files : List (String × String)}
    {content : String} {raw : Tree} (here : context.world s = furnished settings files)
    (named : (furnished settings files).environment.strict? credentialsVariable = some "creds.json")
    (stands : (furnished settings files).files.node? ["creds.json"] = some (.file (Text.toUtf8 content)))
    (decoded : Source.Format.json.decode content = .ok raw) : Found context s "creds.json" raw := by
  have text : (furnished settings files).files.read "creds.json" = .ok content :=
    Files.read_beside (by simp) (by decide +kernel) (by decide +kernel) (by decide) (by decide +kernel) stands
  have format : Source.Format.ofPath "creds.json" = .json := by decide +kernel
  refine ⟨here ▸ named, by decide, ?_⟩
  rw [here]
  refine (Source.read_of_text text).trans ?_
  rw [format, decoded]

def deepCredentials : Tree :=
  .mapping [("parameters", .mapping [("role_id", .text "ENV->V0"), ("secret_id", .text "s")]),
    ("host", .text "http://vault"), ("method", .text "approle")]

theorem found_deep : Found (Context.ofWorlds none) deep "creds.json" deepCredentials :=
  found_beside rfl (by decide +kernel) rfl (by decide +kernel)

theorem reaches_deep : ∃ a, Expansion.Reaches Builtin.registry (Context.ofWorlds none) 32 32
    deepCredentials { outside := deep } a ∧ a.raw = "VAULT->x" ∧ a.room = 0 ∧
    a.places.flatten = [.key "parameters", .key "role_id"] ∧ a.walk.outside = deep := by
  have first : deepCredentials.leaves.head? = some ([.key "parameters", .key "role_id"], hop 0) := by
    decide +kernel
  exact deep_leads (Nat.add_zero 31) first _ ⟨rfl, rfl⟩

end Session
end Vault
end Directives
