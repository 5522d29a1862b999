import Directives.Proofs.Cancellation
import Directives.Proofs.Locality
import Directives.Proofs.Secrets
import Directives.Vault.Client

/-! The requests for Vault that resolution hands to the link. Each directive for a secret that is evaluated
under a live token makes one, and nothing else does: requests are neither repeated nor saved, and there are
no more once a directive has failed. -/
namespace Directives

def Call.request? : Call → Option Request
  | .request sent => some sent
  | _ => none

namespace Vault

/-- What is left of a text that begins with slashes. -/
structure BehindSlashes (text rest : List Char) : Prop where
  whole : ∃ count, text = List.replicate count '/' ++ rest
  begins : rest.head? ≠ some '/'

/-- What stands in a text before the slashes at its end. -/
structure BeforeSlashes (text rest : List Char) : Prop where
  whole : ∃ count, text = rest ++ List.replicate count '/'
  ends : rest.getLast? ≠ some '/'

theorem behindSlashes_dropWhile (text : List Char) : BehindSlashes text (text.dropWhile (· = '/')) where
  whole := by
    refine ⟨(text.takeWhile (· = '/')).length, ?_⟩
    have slashes : ∀ c ∈ text.takeWhile (· = '/'), c = '/' := fun c member => by
      simpa using List.mem_takeWhile_imp member
    rw [← List.eq_replicate_of_mem slashes]
    exact List.takeWhile_append_dropWhile.symm
  begins begun := by
    have other := List.head?_dropWhile_not (fun c => decide (c = '/')) text
    rw [begun] at other
    simp at other

theorem beforeSlashes_reverse {text rest : List Char} (behind : BehindSlashes text.reverse rest) :
    BeforeSlashes text rest.reverse where
  whole := by
    obtain ⟨count, whole⟩ := behind.whole
    refine ⟨count, ?_⟩
    rw [← List.reverse_reverse text, whole, List.reverse_append, List.reverse_replicate]
  ends ended := behind.begins (by rwa [List.getLast?_reverse] at ended)

theorem behindSlashes_withoutLeading (text : String) :
    BehindSlashes text.toList (withoutLeadingSlashes text).toList := by
  rw [withoutLeadingSlashes, String.toList_ofList]
  exact behindSlashes_dropWhile _

theorem beforeSlashes_withoutTrailing (text : String) :
    BeforeSlashes text.toList (withoutTrailingSlashes text).toList := by
  rw [withoutTrailingSlashes, String.toList_ofList]
  exact beforeSlashes_reverse (behindSlashes_dropWhile _)

namespace Client
variable {σ : Type}

def requestFor (c : Client) (secret : SecretRef) : Request := c.readRequest secret.path secret.mount

/-- The address of a secret: the client's host without the slashes it ends with; the secret's mount, or the
client's if it names none, without the slashes around it; and the path without those it begins with. -/
structure Addresses (c : Client) (secret : SecretRef) (url host mount path : List Char) : Prop where
  url : url = host ++ "/v1/".toList ++ mount ++ "/data/".toList ++ path
  host : BeforeSlashes c.host.toList host
  mount : ∃ inner, BehindSlashes (secret.mount.getD c.defaultMount).toList inner ∧
    BeforeSlashes inner mount ∧ mount.head? ≠ some '/'
  path : BehindSlashes secret.path.toList path

theorem addresses_requestFor (c : Client) (secret : SecretRef) :
    ∃ host mount path, c.Addresses secret (c.requestFor secret).url.toList host mount path := by
  refine ⟨_, _, _, ?_, beforeSlashes_withoutTrailing c.host,
    ⟨_, behindSlashes_withoutLeading _, beforeSlashes_withoutTrailing _, ?_⟩,
    behindSlashes_withoutLeading secret.path⟩
  · simp [requestFor, readRequest, get, url, secretPath]
  · have behind := behindSlashes_withoutLeading (secret.mount.getD c.defaultMount)
    obtain ⟨count, whole⟩ := (beforeSlashes_withoutTrailing
      (withoutLeadingSlashes (secret.mount.getD c.defaultMount))).whole
    intro begun
    refine behind.begins ?_
    rw [whole, List.head?_append, begun]
    rfl

end Client
end Vault

namespace Builtin
open Walk Expansion Vault
variable {σ : Type} {c : Client} {link : Link σ} {context : Context σ} {limit room : Nat}

/-- The secret that a text asks for, if it is a directive for one. -/
def secretOf? (raw : String) : Option SecretRef :=
  (Registry.payload? secretToken ((registry : Registry Unit).split raw).stem).map SecretRef.ofText

/-- The secret that a directive asks for, if it is evaluated within the limit. -/
def secretAt? (limit : Nat) (e : Entry) : Option SecretRef :=
  match e.event with
  | .directive raw depth => if depth < limit then secretOf? raw else none
  | _ => none

theorem secretAt?_directive {depth : Nat} (shallow : depth < limit) (raw : String) (stack : List String) :
    secretAt? limit ⟨.directive raw depth, stack⟩ = secretOf? raw := if_pos shallow

theorem shallow_of_secretAt? {raw : String} {depth : Nat} {stack : List String} {secret : SecretRef}
    (asks : secretAt? limit ⟨.directive raw depth, stack⟩ = some secret) : depth < limit := by
  by_contra deep
  have none : secretAt? limit ⟨.directive raw depth, stack⟩ = none := if_neg deep
  rw [none] at asks
  cases asks

/-- The request that an entry says was sent. -/
def requestAt? (e : Entry) : Option Request := e.lookup?.bind Call.request?

theorem resolver?_secret (payload : String) :
    (registry : Registry σ).resolver? (secretToken ++ payload) = some (secretResolver, payload) :=
  @resolver?_token σ secretResolver (by simp [resolvers]) payload

theorem secretOf?_eq_some_iff {raw : String} {secret : SecretRef} :
    secretOf? raw = some secret ↔ ∃ payload, secret = SecretRef.ofText payload ∧
      (registry : Registry σ).resolver? ((registry : Registry σ).split raw).stem =
        some (secretResolver, payload) := by
  have stems : ((registry : Registry Unit).split raw).stem = ((registry : Registry σ).split raw).stem := rfl
  rw [secretOf?, stems, Option.map_eq_some_iff]
  constructor
  · rintro ⟨payload, begins, rfl⟩
    refine ⟨payload, rfl, ?_⟩
    rw [Registry.payload?_eq_some_iff.mp begins, resolver?_secret]
  · rintro ⟨payload, rfl, found⟩
    exact ⟨payload, (Registry.mem_of_resolver? found).2, rfl⟩

theorem requestAt?_of_secretAt? {e : Entry} (asks : (secretAt? limit e).isSome) : requestAt? e = none := by
  obtain ⟨event, stack⟩ := e
  cases event with
  | directive raw depth => rfl
  | lookup call => cases asks
  | resolver token payload => cases asks
  | coercion name => cases asks
  | expand source => cases asks
  | expanded => cases asks

/-- Of the entries of a trail, the requests are one for each secret that is asked for, in order. -/
def Relayed (c : Client) (limit : Nat) (trail : List Entry) : Prop :=
  trail.filterMap requestAt? = (trail.filterMap (secretAt? limit)).map c.requestFor

theorem Relayed.append {trail more : List Entry} (first : Relayed c limit trail)
    (rest : Relayed c limit more) : Relayed c limit (trail ++ more) := by
  rw [Relayed, List.filterMap_append, first, rest, List.filterMap_append, List.map_append]

/-- Nothing is sent, and no secret is asked for. -/
def Silent (limit : Nat) (e : Entry) : Prop := requestAt? e = none ∧ secretAt? limit e = none

theorem relayed_of_silent {trail : List Entry} (silent : ∀ e ∈ trail, Silent limit e) :
    Relayed c limit trail := by
  have requests : trail.filterMap requestAt? = [] :=
    List.filterMap_eq_nil_iff.mpr fun e member => (silent e member).1
  have secrets : trail.filterMap (secretAt? limit) = [] :=
    List.filterMap_eq_nil_iff.mpr fun e member => (silent e member).2
  rw [Relayed, requests, secrets, List.map_nil]

/-- An answer ends at a directive for a secret, because the token is not live there. -/
structure Barred (c : Client) (context : Context σ) (limit : Nat) {α : Type}
    (answer : Traced.Answer Entry (Walk σ) Fault α) (before : List Entry) (e : Entry) : Prop where
  calls : answer.calls = before ++ [e]
  relayed : Relayed c limit before
  secret : (secretAt? limit e).isSome
  reason : ∃ f g, answer.outcome = .error f ∧
    (context.check answer.state.outside).outcome = .error g ∧ f.bare = g.bare

/-- An action sends one request for each secret that it asks for, but for a last one that the token does
not allow. -/
def Relays (c : Client) (context : Context σ) (limit : Nat) {α : Type} (m : Action σ α) : Prop :=
  ∀ w, Relayed c limit (m w).calls ∨ ∃ before e, Barred c context limit (m w) before e

namespace Relays
variable {α β : Type}

theorem of_silent {m : Action σ α} (silent : ∀ w, ∀ e ∈ (m w).calls, Silent limit e) :
    Relays c context limit m := fun w => .inl (relayed_of_silent (silent w))

theorem bind {m : Action σ α} {next : α → Action σ β} (first : Relays c context limit m)
    (rest : ∀ a, Relays c context limit (next a)) : Relays c context limit (m >>= next) := by
  intro w
  cases outcome : (m w).outcome with
  | error f =>
    rw [Traced.bind_of_error outcome]
    refine (first w).imp_right fun ⟨before, e, barred⟩ => ⟨before, e, ?_⟩
    obtain ⟨g, h, failed, checked, same⟩ := barred.reason
    obtain rfl := Except.error.inj (outcome.symm.trans failed)
    exact ⟨barred.calls, barred.relayed, barred.secret, f, h, rfl, checked, same⟩
  | ok a =>
    rw [Traced.bind_of_ok outcome]
    -- A barred action fails, so the first one was not, and what it sent is complete.
    have relayed : Relayed c limit (m w).calls := (first w).resolve_right fun ⟨_, _, barred⟩ => by
      obtain ⟨f, _, failed, _⟩ := barred.reason
      cases outcome.symm.trans failed
    refine (rest a (m w).state).imp relayed.append fun ⟨before, e, barred⟩ => ?_
    refine ⟨(m w).calls ++ before, e, ?_, relayed.append barred.relayed, barred.secret, barred.reason⟩
    simp only [barred.calls, List.append_assoc]

theorem mapError {m : Action σ α} {place : Fault → Fault} (keeps : ∀ f, (place f).bare = f.bare)
    (relays : Relays c context limit m) : Relays c context limit (m.mapError place) := by
  intro w
  refine (relays w).imp id fun ⟨before, e, barred⟩ => ?_
  obtain ⟨f, g, failed, checked, same⟩ := barred.reason
  exact ⟨before, e, barred.calls, barred.relayed, barred.secret, place f, g,
    Traced.mapError_of_error failed, checked, (keeps f).trans same⟩

theorem compositional : Tree.Compositional (fun {α} (m : Action σ α) => Relays c context limit m) where
  pure _ := of_silent fun _ _ member => nomatch member
  bind := bind
  mapError := mapError

theorem note {event : Event} (silent : ∀ stack, Silent limit ⟨event, stack⟩) :
    Relays c context limit (note event) := by
  refine of_silent fun w e member => ?_
  obtain rfl := List.mem_singleton.mp member
  exact silent _

theorem guarded {source : String} {inner : Action σ α} (relays : Relays c context limit inner) :
    Relays c context limit (guarded source inner) := by
  intro w
  by_cases again : source ∈ w.stack
  · rw [guarded_of_mem again]
    exact .inl rfl
  · rw [guarded_of_not_mem again]
    refine (relays (w.below source)).imp id fun ⟨before, e, barred⟩ => ?_
    exact ⟨before, e, barred.calls, barred.relayed, barred.secret, barred.reason⟩

theorem within (source : Option String) {inner : Action σ α} (relays : Relays c context limit inner) :
    Relays c context limit (within source inner) := by
  have completes : Relays c context limit (complete inner) :=
    relays.bind fun _ => (note fun _ => ⟨rfl, rfl⟩).bind fun _ => compositional.pure _
  refine (note fun _ => ⟨rfl, rfl⟩).bind fun _ => ?_
  cases source with
  | none => exact completes
  | some source => exact completes.guarded

end Relays

/-- A coercion sends nothing. -/
theorem silent_coerce {names : List String} (known : (registry : Registry σ).Knows names) (value : Tree)
    (w : Walk σ) : ∀ e ∈ (coerce (registry : Registry σ) names value w).calls, Silent limit e := by
  refine (Tree.compositional_calls (Silent limit)).coerce (fun coercion member t w e called => ?_) known
    value w
  rw [note_bind] at called
  rcases List.mem_cons.mp called with rfl | called
  · exact ⟨rfl, rfl⟩
  · simp only [registry, coercions, List.mem_cons, List.not_mem_nil, or_false] at member
    rcases member with rfl | rfl
    · cases read : toInteger t <;> simp [lift, read, Traced.ofExcept, Traced.pure, Traced.fail] at called
    · cases read : toDuration t <;> simp [lift, read, Traced.ofExcept, Traced.pure, Traced.fail] at called

/-- A directive that is not for a secret sends nothing while it is evaluated. -/
theorem silent_evaluate {raw : String} (other : secretOf? raw = none) (w : Walk σ) :
    ∀ e ∈ (evaluate registry context ((registry : Registry σ).split raw) w).calls, Silent limit e := by
  have coerced (value : Tree) (w : Walk σ) : ∀ e ∈ (coerce (registry : Registry σ)
      ((registry : Registry σ).split raw).coercions value w).calls, Silent limit e :=
    silent_coerce (registry.knows_split raw) value w
  have fetched (w : Walk σ) : ∀ e ∈ (fetch context ((registry : Registry σ).split raw).stem
      ((registry : Registry σ).resolver? ((registry : Registry σ).split raw).stem) w).calls,
      Silent limit e := by
    cases found : (registry : Registry σ).resolver? ((registry : Registry σ).split raw).stem with
    | none => exact fun e member => nomatch member
    | some pair =>
      obtain ⟨resolver, payload⟩ := pair
      have listed : resolver ∈ resolvers := (Registry.mem_of_resolver? found).1
      have apart : resolver.token ≠ secretToken := by
        intro token
        obtain rfl := eq_secretResolver listed token
        rw [secretOf?_eq_some_iff.mpr ⟨payload, rfl, found⟩] at other
        cases other
      intro e member
      cases checked : (context.check w.outside).outcome with
      | error f =>
        rw [fetch_of_error checked] at member
        cases member
      | ok _ =>
        rw [fetch_of_ok checked, note_bind] at member
        rcases List.mem_cons.mp member with rfl | member
        · exact ⟨rfl, rfl⟩
        · obtain ⟨call, made, rfl⟩ := List.mem_map.mp member
          have looked := (looksUp_of_resolve context listed payload).calls trivial call made
          generalize resolver.token = token at apart looked
          cases looked with
          | secret | stored => exact absurd rfl apart
          | _ => exact ⟨rfl, rfl⟩
  have parts := Tree.compositional_calls (σ := Walk σ) (Silent limit)
  exact parts.bind fetched (fun resolved => parts.bind (coerced resolved.value) fun _ => parts.pure _) w

section
variable (attached : context.secrets = some (c.store link context.moment))
include attached

theorem fetch_secret_calls {w : Walk σ} (stem payload : String)
    (live : (context.check w.outside).outcome = .ok ()) :
    (fetch context stem (some (secretResolver, payload)) w).calls =
      [⟨.resolver secretToken payload, w.stack⟩,
        ⟨.lookup (.secret (SecretRef.ofText payload).mount (SecretRef.ofText payload).path), w.stack⟩,
        ⟨.lookup (.request (c.requestFor (SecretRef.ofText payload))), w.stack⟩] := by
  have read : ((c.store link context.moment).read context.token (SecretRef.ofText payload).path
      (SecretRef.ofText payload).mount w.outside).calls =
      [.request (c.requestFor (SecretRef.ofText payload))] := by
    rw [Client.store_read_of_ok live]
    rfl
  rw [fetch_secret attached stem payload live]
  dsimp only
  rw [read]
  rfl

/-- A directive for a secret sends one request while it is evaluated, if the token is live. -/
theorem evaluate_secret (limit : Nat) {raw payload : String} {w : Walk σ}
    (found : (registry : Registry σ).resolver? ((registry : Registry σ).split raw).stem =
      some (secretResolver, payload))
    (live : (context.check w.outside).outcome = .ok ()) :
    ∃ later, (∀ e ∈ later, Silent limit e) ∧
      (evaluate registry context ((registry : Registry σ).split raw) w).calls =
        [⟨.resolver secretToken payload, w.stack⟩,
          ⟨.lookup (.secret (SecretRef.ofText payload).mount (SecretRef.ofText payload).path), w.stack⟩,
          ⟨.lookup (.request (c.requestFor (SecretRef.ofText payload))), w.stack⟩] ++ later := by
  have parts := Tree.compositional_calls (σ := Walk σ) (Silent limit)
  have calls := fetch_secret_calls attached ((registry : Registry σ).split raw).stem payload live
  rw [evaluate, found]
  cases outcome : (fetch context ((registry : Registry σ).split raw).stem
      (some (secretResolver, payload)) w).outcome with
  | error f =>
    rw [Traced.bind_of_error outcome, calls]
    exact ⟨[], List.forall_mem_nil _, rfl⟩
  | ok resolved =>
    rw [Traced.bind_of_ok outcome, calls]
    refine ⟨_, ?_, rfl⟩
    exact parts.bind (silent_coerce (registry.knows_split raw) resolved.value) (fun _ => parts.pure _) _

theorem relays_directive {depth : Nat} (shallow : depth < limit) (raw : String) :
    Relays c context limit (note (.directive raw depth) >>= fun _ =>
      evaluate registry context ((registry : Registry σ).split raw)) := by
  intro w
  rw [note_bind]
  cases asked : secretOf? raw with
  | none =>
    refine .inl (relayed_of_silent fun e member => ?_)
    rcases List.mem_cons.mp member with rfl | member
    · exact ⟨rfl, (secretAt?_directive shallow raw w.stack).trans asked⟩
    · exact silent_evaluate asked w e member
  | some secret =>
    obtain ⟨payload, rfl, found⟩ := secretOf?_eq_some_iff.mp asked
    have named (stack : List String) :
        secretAt? limit ⟨.directive raw depth, stack⟩ = some (SecretRef.ofText payload) :=
      (secretAt?_directive shallow raw stack).trans asked
    cases checked : (context.check w.outside).outcome with
    | error f =>
      rw [evaluate_of_error found checked]
      refine .inr ⟨[], _, rfl, rfl, by rw [named]; rfl, f, f, rfl, checked, rfl⟩
    | ok _ =>
      obtain ⟨later, silent, calls⟩ := evaluate_secret attached limit found checked
      rw [calls, ← List.cons_append]
      refine .inl (Relayed.append ?_ (relayed_of_silent silent))
      simp only [Relayed, List.filterMap_cons, named]
      rfl

/-- Resolution sends one request for each secret that it asks for, but for a last one that the token does
not allow. -/
theorem relays_expandTree (fits : room ≤ limit) (t : Tree) :
    Relays c context limit (expandTree registry context limit room t) := by
  induction room generalizing t with
  | zero =>
    refine Relays.compositional.expand (fun raw _ => ?_) t
    refine (Relays.note fun _ => ⟨rfl, ?_⟩).bind fun _ => Relays.of_silent fun _ _ member => nomatch member
    exact if_neg (Nat.lt_irrefl limit)
  | succ room ih =>
    refine Relays.compositional.expand (fun raw _ => ?_) t
    rw [expandDirective, ← bind_assoc]
    exact (relays_directive attached (by omega) raw).bind fun resolved =>
      .within resolved.source (ih (by omega) resolved.value)

/-- Where a walk comes to a directive for a secret, within the limit, it sends the request for it if the
token is live, and ends otherwise. -/
theorem reaches_secret {t : Tree} {w : Walk σ} {a : Arrival σ}
    (reaches : Reaches registry context limit limit t w a) (fits : 0 < a.room) {secret : SecretRef}
    (asks : secretOf? a.raw = some secret) :
    let walked := expandTree registry context limit limit t w
    let own : Entry := ⟨.directive a.raw (limit - a.room), a.walk.stack⟩
    ((context.check a.walk.outside).outcome = .ok () ∧ ∃ payload later, walked.calls =
      a.trail ++ [own, ⟨.resolver secretToken payload, a.walk.stack⟩,
        ⟨.lookup (.secret secret.mount secret.path), a.walk.stack⟩,
        ⟨.lookup (.request (c.requestFor secret)), a.walk.stack⟩] ++ later) ∨
    ∃ f, (context.check a.walk.outside).outcome = .error f ∧ walked.calls = a.trail ++ [own] ∧
      walked.outcome = .error (a.place f) := by
  intro walked own
  obtain ⟨rest, calls, fails⟩ := reaches.walk
  obtain ⟨payload, rfl, found⟩ := secretOf?_eq_some_iff.mp asks
  obtain ⟨trail, places, raw, room, inner⟩ := a
  cases room with
  | zero => exact absurd fits (Nat.lt_irrefl 0)
  | succ room =>
    cases checked : (context.check inner.outside).outcome with
    | error f =>
      have refused := evaluate_of_error found checked
      have ended : expandDirective registry context limit (room + 1) raw inner =
          ⟨.error f, inner, [⟨.directive raw (limit - (room + 1)), inner.stack⟩]⟩ := by
        rw [expandDirective_of_error (by rw [refused]), refused]
      obtain ⟨rfl, failed⟩ := fails f (by rw [ended])
      rw [ended] at calls
      exact .inr ⟨f, rfl, calls, failed⟩
    | ok _ =>
      obtain ⟨later, _, evaluated⟩ := evaluate_secret attached limit found checked
      obtain ⟨more, expanded⟩ : ∃ more, (expandDirective registry context limit (room + 1) raw inner).calls =
          ⟨.directive raw (limit - (room + 1)), inner.stack⟩ ::
            (evaluate registry context ((registry : Registry σ).split raw) inner).calls ++ more := by
        rw [expandDirective, note_bind]
        obtain ⟨more, calls⟩ := Traced.bind_calls
          (evaluate registry context ((registry : Registry σ).split raw)) _ inner
        exact ⟨more, congrArg (List.cons _) calls⟩
      refine .inl ⟨rfl, payload, later ++ more ++ rest, calls.trans ?_⟩
      simp only [expanded, evaluated, own, List.append_assoc, List.cons_append, List.nil_append]

variable {maxDepth : Nat} {t : Tree} {s : σ}

/-- The requests are one for each secret that is asked for, in order, but for a last one that the token does
not allow. -/
theorem exists_allowed (maxDepth : Nat) (t : Tree) (s : σ) :
    let walked := t.walk registry context maxDepth { outside := s }
    ∃ allowed, walked.calls.filterMap requestAt? =
        (allowed.filterMap (secretAt? maxDepth)).map c.requestFor ∧
      (walked.calls = allowed ∨ ∃ e f g, walked.calls = allowed ++ [e] ∧ (secretAt? maxDepth e).isSome ∧
        (context.check walked.state.outside).outcome = .error g ∧ walked.outcome = .error f ∧
        f.bare = g.bare) := by
  intro walked
  rcases relays_expandTree attached (Nat.le_refl maxDepth) t { outside := s } with
    relayed | ⟨before, e, barred⟩
  · exact ⟨walked.calls, relayed, .inl rfl⟩
  · obtain ⟨f, g, failed, checked, same⟩ := barred.reason
    refine ⟨before, ?_, .inr ⟨e, f, g, barred.calls, barred.secret, checked, failed, same⟩⟩
    have calls : walked.calls = before ++ [e] := barred.calls
    rw [calls, List.filterMap_append, ← barred.relayed]
    simp [requestAt?_of_secretAt? barred.secret]

/-- What follows on the trail where a walk comes to a directive for a secret. -/
theorem later_of_secretAt? {a : Arrival σ} {later : List Entry} {secret : SecretRef}
    (reaches : Reaches registry context maxDepth maxDepth t { outside := s } a)
    (split : (t.walk registry context maxDepth { outside := s }).calls =
      a.trail ++ ⟨.directive a.raw (maxDepth - a.room), a.walk.stack⟩ :: later)
    (asks : secretAt? maxDepth ⟨.directive a.raw (maxDepth - a.room), a.walk.stack⟩ = some secret) :
    ((context.check a.walk.outside).outcome = .ok () ∧ ∃ payload rest, later =
      [⟨.resolver secretToken payload, a.walk.stack⟩,
        ⟨.lookup (.secret secret.mount secret.path), a.walk.stack⟩,
        ⟨.lookup (.request (c.requestFor secret)), a.walk.stack⟩] ++ rest) ∨
    ∃ f, (context.check a.walk.outside).outcome = .error f ∧ later = [] ∧
      (t.walk registry context maxDepth { outside := s }).outcome = .error (a.place f) := by
  have shallow : maxDepth - a.room < maxDepth := shallow_of_secretAt? asks
  rw [secretAt?_directive shallow] at asks
  rcases reaches_secret attached reaches (by omega) asks with
    ⟨live, payload, rest, calls⟩ | ⟨f, ended, calls, failed⟩
  · refine .inl ⟨live, payload, rest, ?_⟩
    rw [List.append_assoc] at calls
    exact (List.cons.inj (List.append_cancel_left (split.symm.trans calls))).2
  · refine .inr ⟨f, ended, ?_, failed⟩
    exact (List.cons.inj (List.append_cancel_left (split.symm.trans calls))).2

end

end Builtin
end Directives
