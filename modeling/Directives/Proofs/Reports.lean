import Directives.Builtin
import Directives.Proofs.Ensured

/-! What the resolvers and coercions that every program has report when they fail: something that they find
themselves, or what the secret store answered, as it is. -/
namespace Directives.Builtin
variable {σ : Type} {context : Context σ}

/-- What a resolver reports from a state: a failure that it finds itself, or the answer of the secret store
to the read that it makes there. -/
inductive Reports (context : Context σ) (resolver : Resolver σ) (payload : String) (s : σ) : Fault → Prop
  | missing (name : String) : Reports context resolver payload s (.missingVariable name)
  | file (path : String) (problem : Source.Problem) :
    Reports context resolver payload s (fileFault path problem)
  | noStore : context.secrets = none → Reports context resolver payload s (.noProvider secretToken)
  | ended (reason : Cancel.Reason) : Reports context resolver payload s (.cancelled reason.message)
  | store {store : SecretStore σ} {f : Fault} : resolver = secretResolver →
    context.secrets = some store → (context.check s).outcome = .ok () →
    (store.read context.token (SecretRef.ofText payload).path (SecretRef.ofText payload).mount
      s).outcome = .error f →
    Reports context resolver payload s f

/-- A failure that a coercion finds in its value. -/
inductive Unfit : Fault → Prop
  | parse (cause : String) : Unfit (.parse cause)
  | kind (expected got : String) : Unfit (.typeCoercion expected got)

section
variable {resolver : Resolver σ} {payload : String}

theorem reports_check : Traced.Ensures (fun _ => True) (fun _ => True)
    (fun f => ∀ s, Reports context resolver payload s f) (fun _ => True) context.check where
  stays _ := trivial
  calls _ _ _ := trivial
  failure _ failed := by
    obtain ⟨reason, _, rfl⟩ := Cancel.Token.check_error failed
    exact fun _ => .ended reason
  result _ _ := trivial

theorem reports_lookUp (name : String) : Traced.Ensures (fun _ => True) (fun _ => True)
    (fun f => ∀ s, Reports context resolver payload s f) (fun _ => True) (lookUp context name) :=
  (Traced.Ensures.record trivial).bind fun _ _ => .read fun _ => trivial

theorem reports_readFile (path : String) : Traced.Ensures (fun _ => True) (fun _ => True)
    (fun f => ∀ s, Reports context resolver payload s f) (fun _ => True) (readFile context path) :=
  reports_check.bind fun _ _ => (Traced.Ensures.record trivial).bind fun _ _ => .read fun _ => trivial

theorem eq_secretResolver {resolver : Resolver σ} (member : resolver ∈ resolvers)
    (token : resolver.token = secretToken) : resolver = secretResolver := by
  simp only [resolvers, List.mem_cons, List.not_mem_nil, or_false] at member
  rcases member with rfl | rfl | rfl | rfl | rfl
  · exact absurd token (show envToken ≠ secretToken by decide)
  · exact absurd token (show optionalEnvToken ≠ secretToken by decide)
  · exact absurd token (show fileToken ≠ secretToken by decide)
  · exact absurd token (show optionalFileToken ≠ secretToken by decide)
  · rfl

/-- A resolver that is not for secrets finds its failures itself, whatever the state. -/
theorem ensures_reports (member : resolver ∈ resolvers) (other : resolver.token ≠ secretToken) :
    Traced.Ensures (fun _ => True) (fun _ => True) (fun f => ∀ s, Reports context resolver payload s f)
      (fun _ => True) (resolver.resolve context payload) := by
  simp only [resolvers, List.mem_cons, List.not_mem_nil, or_false] at member
  rcases member with rfl | rfl | rfl | rfl | rfl
  · refine (reports_lookUp payload).bind fun value _ => ?_
    cases value with
    | none => exact .fail fun _ => .missing payload
    | some value =>
      dsimp only
      split
      · exact .fail fun _ => .missing payload
      · exact .pure trivial
  · exact (reports_lookUp payload).bind fun _ _ => .pure trivial
  · refine (reports_readFile payload).bind fun found _ => ?_
    split
    · exact .pure trivial
    · exact .fail fun _ => .file payload _
  · refine (reports_readFile payload).bind fun found _ => ?_
    split
    · exact .pure trivial
    · split
      · exact .pure trivial
      · exact .fail fun _ => .file payload _
  · exact absurd rfl other

/-- Under a live token the resolver for secrets asks the store. -/
theorem secretResolver_of_ok {store : SecretStore σ} (found : context.secrets = some store) {s : σ}
    (live : (context.check s).outcome = .ok ()) :
    let secret := SecretRef.ofText payload
    let read := store.read context.token secret.path secret.mount s
    secretResolver.resolve context payload s =
      ⟨read.outcome.map fun fields => ⟨.mapping fields, some secret.source⟩, read.state,
        .secret secret.mount secret.path :: read.calls⟩ := by
  intro secret read
  have answered := Traced.bind_pure_apply (store.read context.token secret.path secret.mount)
    (fun fields => (⟨.mapping fields, some secret.source⟩ : Resolved)) s
  simp only [secretResolver, found]
  rw [Traced.bind_of_ok live]
  exact congrArg (fun answer : Run.Answer σ Fault Resolved =>
    (⟨answer.outcome, answer.state, .secret secret.mount secret.path :: answer.calls⟩ :
      Run.Answer σ Fault Resolved)) answered

/-- A directive for a secret asks the token first, then the store. -/
theorem fetch_secret {store : SecretStore σ} (found : context.secrets = some store)
    (stem payload : String) {w : Walk σ} (live : (context.check w.outside).outcome = .ok ()) :
    let secret := SecretRef.ofText payload
    let read := store.read context.token secret.path secret.mount w.outside
    Expansion.fetch context stem (some (secretResolver, payload)) w =
      ⟨read.outcome.map fun fields => ⟨.mapping fields, some secret.source⟩,
        { w with outside := read.state },
        ⟨.resolver secretToken payload, w.stack⟩ ::
          ⟨.lookup (.secret secret.mount secret.path), w.stack⟩ ::
            read.calls.map fun call => ⟨.lookup call, w.stack⟩⟩ := by
  intro secret read
  have resolved : secretResolver.resolve context payload w.outside = _ := secretResolver_of_ok found live
  rw [Expansion.fetch_of_ok live, Walk.note_bind]
  simp only [Walk.lift, resolved]
  rfl

theorem reports_of_secretResolver {s : σ} {f : Fault}
    (failed : (secretResolver.resolve context payload s).outcome = .error f) :
    Reports context secretResolver payload s f := by
  cases found : context.secrets with
  | none =>
    simp only [secretResolver, found] at failed
    cases failed
    exact .noStore found
  | some store =>
    cases checked : (context.check s).outcome with
    | error g =>
      simp only [secretResolver, found] at failed
      rw [Traced.bind_of_error checked] at failed
      cases failed
      obtain ⟨reason, _, rfl⟩ := Cancel.Token.check_error checked
      exact .ended reason
    | ok _ =>
      rw [secretResolver_of_ok found checked] at failed
      cases refused : (store.read context.token (SecretRef.ofText payload).path
          (SecretRef.ofText payload).mount s).outcome with
      | ok fields =>
        rw [refused] at failed
        cases failed
      | error g =>
        rw [refused] at failed
        cases failed
        exact .store rfl found checked refused

/-- A resolver that fails reports what it found itself, or what the secret store answered to it. -/
theorem reports_of_resolve (member : resolver ∈ resolvers) {s : σ} {f : Fault}
    (failed : (resolver.resolve context payload s).outcome = .error f) :
    Reports context resolver payload s f := by
  by_cases token : resolver.token = secretToken
  · obtain rfl := eq_secretResolver member token
    exact reports_of_secretResolver failed
  · exact (ensures_reports member token).failure trivial failed s

end

theorem unfit_of_toInteger {value : Tree} {f : Fault} (failed : toInteger value = .error f) : Unfit f := by
  simp only [toInteger] at failed
  split at failed
  · cases failed
  · split at failed <;> cases failed
    exact .parse _
  · cases failed
    exact .kind _ _

theorem unfit_of_toDuration {value : Tree} {f : Fault} (failed : toDuration value = .error f) : Unfit f := by
  simp only [toDuration] at failed
  split at failed
  · cases failed
  · split at failed <;> cases failed
    exact .parse _
  · split at failed <;> cases failed
    exact .parse _
  · cases failed
    exact .kind _ _

/-- A coercion that fails was given an unfit value. -/
theorem unfit_of_apply {coercion : Coercion σ} (member : coercion ∈ coercions) {value : Tree} {s : σ}
    {f : Fault} (failed : (coercion.apply value s).outcome = .error f) : Unfit f := by
  simp only [coercions, List.mem_cons, List.not_mem_nil, or_false] at member
  rcases member with rfl | rfl
  · exact unfit_of_toInteger (Traced.outcome_ofExcept.symm.trans failed)
  · exact unfit_of_toDuration (Traced.outcome_ofExcept.symm.trans failed)

end Directives.Builtin
