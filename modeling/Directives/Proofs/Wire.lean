import Directives.Network.Isolated
import Directives.Proofs.Delivery
import Directives.Proofs.Requests

/-! What resolution puts on the wire. The state outside changes only as requests are exchanged, one after
the other, and so what is sent for the whole of a tree is what is sent for each request in turn. -/
namespace Directives
open Network (Sent Transport Wired)

/-- The requests, exchanged one after the other, each within the time that there is then, lead from the first
state to the second. -/
inductive Link.Exchanged {σ : Type} (link : Link σ) (limit : σ → Nat) : σ → List Request → σ → Prop
  | done (s : σ) : Exchanged link limit s [] s
  | next {s s' : σ} {request : Request} {requests : List Request} :
    Exchanged link limit (link.exchange request (limit s) s).2 requests s' →
    Exchanged link limit s (request :: requests) s'

/-- The requests lead from the first state to the second, and these are sent for each of them in turn. -/
inductive Network.Transport.SendsEach {σ : Type} (t : Transport σ) (limit : Wired σ → Nat) :
    Wired σ → List Request → List (List Sent) → Wired σ → Prop
  | done (w : Wired σ) : SendsEach t limit w [] [] w
  | next {w w' : Wired σ} {request : Request} {requests : List Request} {group : List Sent}
    {groups : List (List Sent)} :
    t.Serves request (limit w) w.outside group →
    (t.recorded.exchange request (limit w) w).2.sent = w.sent ++ group →
    SendsEach t limit (t.recorded.exchange request (limit w) w).2 requests groups w' →
    SendsEach t limit w (request :: requests) (group :: groups) w'

/-- What was sent grows by what is sent for each of the requests. -/
theorem Network.Transport.SendsEach.sent {σ : Type} {t : Transport σ} {limit : Wired σ → Nat} {w w' : Wired σ}
    {requests : List Request} {groups : List (List Sent)} (sends : t.SendsEach limit w requests groups w') :
    w'.sent = w.sent ++ groups.flatten := by
  induction sends with
  | done w => exact (List.append_nil _).symm
  | next _ grown _ ih => rw [ih, grown, List.flatten_cons, List.append_assoc]

namespace Link.Exchanged
variable {σ : Type} {link : Link σ} {limit : σ → Nat} {s s' s'' : σ} {requests more : List Request}

theorem append (first : link.Exchanged limit s requests s') (rest : link.Exchanged limit s' more s'') :
    link.Exchanged limit s (requests ++ more) s'' := by
  induction first with
  | done => exact rest
  | next _ ih => exact .next (ih rest)

theorem nothing (exchanged : link.Exchanged limit s [] s') : s' = s := by
  cases exchanged
  rfl

theorem single {request : Request} (exchanged : link.Exchanged limit s [request] s') :
    s' = (link.exchange request (limit s) s).2 := by
  cases exchanged with
  | next rest => exact rest.nothing

/-- Over the link that keeps account, something is sent for each request, or nothing. -/
theorem recorded {t : Transport σ} {limit : Wired σ → Nat} {w w' : Wired σ}
    (exchanged : t.recorded.Exchanged limit w requests w') :
    ∃ groups, t.SendsEach limit w requests groups w' := by
  induction exchanged with
  | done w => exact ⟨[], .done w⟩
  | @next w w' request requests _ ih =>
    obtain ⟨groups, sends⟩ := ih
    exact ⟨_, .next (t.serves_deliver request (limit w) w.outside) rfl sends⟩

end Link.Exchanged

/-- Of the state, this view changes only by the requests that the computation makes. -/
def Traced.Exchanges {κ τ σ ε α : Type} (link : Link σ) (limit : σ → Nat) (view : τ → σ)
    (asked : κ → Option Request) (m : Traced κ τ ε α) : Prop :=
  ∀ s, link.Exchanged limit (view s) ((m s).calls.filterMap asked) (view (m s).state)

namespace Traced.Exchanges
variable {κ τ σ ε ε' α β : Type} {link : Link σ} {limit : σ → Nat} {view : τ → σ}
  {asked : κ → Option Request}

theorem pure (a : α) : Exchanges link limit view asked (pure a : Traced κ τ ε α) := fun s => .done (view s)

theorem fail (e : ε) : Exchanges link limit view asked (fail e : Traced κ τ ε α) := fun s => .done (view s)

theorem ofExcept (outcome : Except ε α) :
    Exchanges link limit view asked (ofExcept outcome : Traced κ τ ε α) := by
  cases outcome with
  | ok a => exact pure a
  | error e => exact fail e

theorem read (look : τ → α) : Exchanges link limit view asked (read look : Traced κ τ ε α) :=
  fun s => .done (view s)

theorem record {call : κ} (silent : asked call = none) :
    Exchanges link limit view asked (record call : Traced κ τ ε Unit) := by
  intro s
  rw [Traced.record, List.filterMap_cons_none silent]
  exact .done (view s)

theorem bind {m : Traced κ τ ε α} {next : α → Traced κ τ ε β} (first : Exchanges link limit view asked m)
    (rest : ∀ a, Exchanges link limit view asked (next a)) :
    Exchanges link limit view asked (m >>= next) := by
  intro s
  cases outcome : (m s).outcome with
  | error e =>
    rw [bind_of_error outcome]
    exact first s
  | ok a =>
    rw [bind_of_ok outcome, List.filterMap_append]
    exact (first s).append (rest a _)

theorem compositional :
    Tree.Compositional (fun {α} (m : Traced κ τ Fault α) => Exchanges link limit view asked m) where
  pure := pure
  bind := bind
  mapError _ exchanges := exchanges

end Traced.Exchanges

/-- A network where each address is answered so, if the request is taken. -/
def Network.Transport.answering {σ : Type} (answer : String → Reply × Option String) : Transport σ where
  send request _ s :=
    match refusal? request with
    | some problem => (.unsent (some problem), s)
    | none => (.sent (answer request.url).1 (answer request.url).2, s)
  target _ location := location.elim (.error "nowhere") .ok
  now _ := 0

/-- What is outside is a world, under a token that stays live. -/
def Context.wired (secrets : Option (SecretStore (Wired World))) : Context (Wired World) where
  world := Wired.outside
  moment _ := {}
  token := { family := 0 }
  secrets := secrets

namespace Builtin
open Walk Expansion Vault
variable {σ : Type} {c : Client} {link : Link σ} {context : Context σ} {maxDepth room : Nat}

/-- The time that the token of the context leaves for a request. -/
def allowance (context : Context σ) (s : σ) : Nat := context.token.bound (context.moment s) requestLimit

abbrev RunExchanges {ε α : Type} (link : Link σ) (context : Context σ) (m : Run σ ε α) : Prop :=
  Traced.Exchanges link (allowance context) id Call.request? m

abbrev WalkExchanges {α : Type} (link : Link σ) (context : Context σ) (m : Action σ α) : Prop :=
  Traced.Exchanges link (allowance context) Walk.outside requestAt? m

theorem exchanges_check : RunExchanges link context context.check := fun s => .done s

theorem exchanges_store_read (c : Client) (link : Link σ) (context : Context σ) (path : String)
    (mount : Option String) :
    RunExchanges link context ((c.store link context.moment).read context.token path mount) := by
  intro s
  cases live : context.token.check (context.moment s) with
  | error f =>
    rw [Client.store_read_of_error live]
    exact .done s
  | ok _ =>
    rw [Client.store_read_of_ok live]
    exact .next (.done _)

theorem exchanges_resolve (attached : context.secrets = some (c.store link context.moment))
    {resolver : Resolver σ} (member : resolver ∈ resolvers) (payload : String) :
    RunExchanges link context (resolver.resolve context payload) := by
  have looked : RunExchanges link context (lookUp context payload : Run σ Fault _) :=
    (Traced.Exchanges.record rfl).bind fun _ => .read _
  have file : RunExchanges link context (readFile context payload) :=
    exchanges_check.bind fun _ => (Traced.Exchanges.record rfl).bind fun _ => .read _
  simp only [resolvers, List.mem_cons, List.not_mem_nil, or_false] at member
  rcases member with rfl | rfl | rfl | rfl | rfl
  · refine looked.bind fun value => ?_
    cases value with
    | none => exact .fail _
    | some value =>
      dsimp only
      split
      · exact .fail _
      · exact .pure _
  · exact looked.bind fun _ => .pure _
  · refine file.bind fun found => ?_
    split
    · exact .pure _
    · exact .fail _
  · refine file.bind fun found => ?_
    split
    · exact .pure _
    · split
      · exact .pure _
      · exact .fail _
  · simp only [secretResolver, attached]
    exact exchanges_check.bind fun _ => (Traced.Exchanges.record rfl).bind fun _ =>
      (exchanges_store_read c link context _ _).bind fun _ => .pure _

theorem exchanges_note {event : Event} (silent : ∀ call, event ≠ .lookup call) :
    WalkExchanges link context (note event) := by
  intro w
  have nothing : requestAt? ⟨event, w.stack⟩ = none := by
    cases event with
    | lookup call => exact absurd rfl (silent call)
    | _ => rfl
  rw [note, List.filterMap_cons_none nothing]
  exact .done w.outside

theorem exchanges_lift {α : Type} {m : Run σ Fault α} (exchanges : RunExchanges link context m) :
    WalkExchanges link context (lift m) := by
  intro w
  have requests : (lift m w).calls.filterMap requestAt? = (m w.outside).calls.filterMap Call.request? := by
    rw [lift, List.filterMap_map]
    rfl
  rw [requests]
  exact exchanges w.outside

theorem exchanges_guarded {α : Type} {source : String} {inner : Action σ α}
    (exchanges : WalkExchanges link context inner) : WalkExchanges link context (guarded source inner) := by
  intro w
  by_cases again : source ∈ w.stack
  · rw [guarded_of_mem again]
    exact .done w.outside
  · rw [guarded_of_not_mem again]
    exact exchanges (w.below source)

theorem exchanges_within {α : Type} (source : Option String) {inner : Action σ α}
    (exchanges : WalkExchanges link context inner) : WalkExchanges link context (within source inner) := by
  have completes : WalkExchanges link context (complete inner) :=
    exchanges.bind fun _ => (exchanges_note (by simp)).bind fun _ => .pure _
  refine (exchanges_note (by simp)).bind fun _ => ?_
  cases source with
  | none => exact completes
  | some source => exact exchanges_guarded completes

section
variable (attached : context.secrets = some (c.store link context.moment))
include attached

theorem exchanges_evaluate (raw : String) :
    WalkExchanges link context (evaluate registry context ((registry : Registry σ).split raw)) := by
  refine Traced.Exchanges.compositional.evaluate (exchanges_lift exchanges_check)
    (fun resolver member payload => ?_) (fun coercion member t => ?_) raw
  · exact (exchanges_note (by simp)).bind fun _ => exchanges_lift (exchanges_resolve attached member payload)
  · simp only [registry, coercions, List.mem_cons, List.not_mem_nil, or_false] at member
    refine (exchanges_note (by simp)).bind fun _ => exchanges_lift ?_
    rcases member with rfl | rfl <;> exact .ofExcept _

/-- Resolution changes nothing outside but by the requests that it makes. -/
theorem exchanges_expandTree (t : Tree) :
    WalkExchanges link context (expandTree registry context maxDepth room t) := by
  induction room generalizing t with
  | zero =>
    refine Traced.Exchanges.compositional.expand (fun raw _ => ?_) t
    exact (exchanges_note (by simp)).bind fun _ => .fail _
  | succ room ih =>
    refine Traced.Exchanges.compositional.expand (fun raw _ => ?_) t
    exact (exchanges_note (by simp)).bind fun _ => (exchanges_evaluate attached raw).bind fun resolved =>
      exchanges_within resolved.source (ih resolved.value)

/-- A directive for a secret that is evaluated under a live token has its request exchanged, and nothing
else. -/
theorem exchanged_of_secret {raw : String} {secret : SecretRef} {w : Walk σ}
    (asks : secretOf? raw = some secret) (live : (context.check w.outside).outcome = .ok ()) :
    (evaluate registry context ((registry : Registry σ).split raw) w).state.outside =
      (link.exchange (c.requestFor secret) (allowance context w.outside) w.outside).2 := by
  obtain ⟨payload, rfl, found⟩ := secretOf?_eq_some_iff.mp asks
  obtain ⟨later, silent, calls⟩ := evaluate_secret attached 0 found live
  have exchanged := exchanges_evaluate attached raw w
  have none : later.filterMap requestAt? = [] :=
    List.filterMap_eq_nil_iff.mpr fun e member => (silent e member).1
  rw [calls, List.filterMap_append, none] at exchanged
  exact exchanged.single

/-- Any other directive leaves what is outside as it is while it is evaluated. -/
theorem outside_of_not_secret {raw : String} (other : secretOf? raw = none) (w : Walk σ) :
    (evaluate registry context ((registry : Registry σ).split raw) w).state.outside = w.outside := by
  have exchanged := exchanges_evaluate attached raw w
  have silent : ∀ e ∈ (evaluate registry context ((registry : Registry σ).split raw) w).calls, Silent 0 e :=
    silent_evaluate other w
  rw [List.filterMap_eq_nil_iff.mpr fun e member => (silent e member).1] at exchanged
  exact exchanged.nothing

end

/-- Requests refine the reading of secrets. With a client for Vault as the store, whatever the server
answers, resolution has one request sent for each directive for a secret that is evaluated within the limit
under a live token, in the order of evaluation, and none for any other directive. It is a reading request for
the secret's address, if the client for HTTP takes it at all, and only answers that point elsewhere bring
further ones. A directive for a secret under a token that is not live sends nothing and ends the resolution;
and so does every directive that fails end it, so that nothing is sent afterwards. -/
theorem one_request_each (c : Client) (transport : Transport σ) (surroundings : Context (Wired σ))
    (maxDepth : Nat) (t : Tree) (w : Wired σ) :
    let context : Context (Wired σ) :=
      { surroundings with secrets := some (c.store transport.recorded surroundings.moment) }
    let walked := t.walk registry context maxDepth { outside := w }
    let after := (t.resolve registry context maxDepth w).state
    (∃ allowed groups, after.sent = w.sent ++ groups.flatten ∧
      transport.SendsEach (allowance context) w
        ((allowed.filterMap (secretAt? maxDepth)).map c.requestFor) groups after ∧
      (walked.calls = allowed ∨ ∃ e f g, walked.calls = allowed ++ [e] ∧ (secretAt? maxDepth e).isSome ∧
        (context.check walked.state.outside).outcome = .error g ∧ walked.outcome = .error f ∧
        f.bare = g.bare)) ∧
    (∀ secret, (c.requestFor secret).method = .get ∧ (c.requestFor secret).body = none ∧
      (c.requestFor secret).token = some c.token ∧
      ('#' ∉ (c.requestFor secret).url.toList → (c.requestFor secret).onWire = c.requestFor secret) ∧
      ∃ host mount path, c.Addresses secret (c.requestFor secret).url.toList host mount path) ∧
    ∀ earlier raw depth stack later,
      walked.calls = earlier ++ ⟨.directive raw depth, stack⟩ :: later →
      ∃ a, Reaches registry context maxDepth maxDepth t { outside := w } a ∧
        a.trail = earlier ∧ a.raw = raw ∧ a.walk.stack = stack ∧ depth = maxDepth - a.room ∧
        let here := a.walk.outside
        let evaluated := evaluate registry context ((registry : Registry (Wired σ)).split raw) a.walk
        (∀ secret, secretAt? maxDepth ⟨.directive raw depth, stack⟩ = some secret →
          ((context.check here).outcome = .ok () ∧
            (∃ group, transport.Serves (c.requestFor secret) (allowance context here) here.outside group ∧
              evaluated.state.outside.sent = here.sent ++ group) ∧
            ∃ payload rest, later =
              [⟨.resolver secretToken payload, stack⟩, ⟨.lookup (.secret secret.mount secret.path), stack⟩,
                ⟨.lookup (.request (c.requestFor secret)), stack⟩] ++ rest) ∨
          ∃ f, (context.check here).outcome = .error f ∧ later = [] ∧ walked.outcome = .error (a.place f)) ∧
        (secretOf? raw = none → evaluated.state.outside = here) ∧
        ∀ f, (expandDirective registry context maxDepth a.room raw a.walk).outcome = .error f →
          walked.calls =
            earlier ++ (expandDirective registry context maxDepth a.room raw a.walk).calls ∧
          walked.outcome = .error (a.place f) := by
  intro context walked after
  have attached : context.secrets = some (c.store transport.recorded context.moment) := rfl
  refine ⟨?_, fun secret => ⟨rfl, rfl, rfl, Request.onWire_of_not_mem, c.addresses_requestFor secret⟩, ?_⟩
  · obtain ⟨allowed, requests, ends⟩ := exists_allowed attached maxDepth t w
    have exchanged : transport.recorded.Exchanged (allowance context) w
        (walked.calls.filterMap requestAt?) after := exchanges_expandTree attached t { outside := w }
    rw [show walked.calls.filterMap requestAt? = _ from requests] at exchanged
    obtain ⟨groups, sends⟩ := exchanged.recorded
    exact ⟨allowed, groups, sends.sent, sends, ends⟩
  · intro earlier raw depth stack later split
    obtain ⟨a, reaches, rfl, rfl, rfl, rfl⟩ := exists_reaches split
    refine ⟨a, reaches, rfl, rfl, rfl, rfl, ?_⟩
    intro here evaluated
    refine ⟨fun secret asks => ?_, fun other => outside_of_not_secret attached other a.walk,
      fun f failed => ?_⟩
    · refine (later_of_secretAt? attached reaches split asks).imp_left fun ⟨live, later⟩ => ⟨live, ?_, later⟩
      rw [secretAt?_directive (shallow_of_secretAt? asks)] at asks
      have exchanged := exchanged_of_secret attached asks live
      exact ⟨_, transport.serves_deliver _ _ here.outside, congrArg Wired.sent exchanged⟩
    · obtain ⟨rest, calls, fails⟩ := reaches.walk
      obtain ⟨rfl, refused⟩ := fails f failed
      rw [List.append_nil] at calls
      exact ⟨calls, refused⟩

/-- A token with a line break is not put on the wire. An answer that points elsewhere brings a second request.
What stands behind a number sign in a mount is not put on the wire. -/
theorem sent_otherwise :
    let context (c : Client) (transport : Transport World) : Context (Wired World) :=
      .wired (some (c.store transport.recorded fun _ => {}))
    let asked (c : Client) (transport : Transport World) : List SecretRef :=
      ((Tree.text "VAULT->x").walk registry (context c transport) defaultMaxDepth
        { outside := ⟨{}, []⟩ }).calls.filterMap (secretAt? defaultMaxDepth)
    let sent (c : Client) (transport : Transport World) : List Request :=
      (((Tree.text "VAULT->x").resolve registry (context c transport) defaultMaxDepth
        ⟨{}, []⟩).state.sent.map Sent.request)
    let broken : Client := { host := "http://vault", token := "a\nb" }
    let plain : Client := { host := "http://vault", token := "t" }
    let marked : Client := { host := "http://vault", defaultMount := "a#b", token := "t" }
    let secret : String := "\x7b\"data\":\x7b\"data\":\x7b\x7d\x7d\x7d"
    let moved : Transport World := .answering fun url =>
      if url = "http://vault/v1/secret/data/x" then (.answered 302 "", some "http://other/")
      else (.answered 200 secret, none)
    let still : Transport World := .answering fun _ => (.answered 200 secret, none)
    (asked broken still = [⟨none, "x"⟩] ∧ sent broken still = []) ∧
      (asked plain moved = [⟨none, "x"⟩] ∧
        sent plain moved = [plain.requestFor ⟨none, "x"⟩,
          { method := .get, url := "http://other/", token := some "t" }]) ∧
      asked marked still = [⟨none, "x"⟩] ∧
        sent marked still = [{ method := .get, url := "http://vault/v1/a", token := some "t" }] ∧
        (marked.requestFor ⟨none, "x"⟩).url = "http://vault/v1/a#b/data/x" := by
  decide +kernel

end Builtin
end Directives
