import Directives.Builtin
import Directives.Proofs.Abreast

/-! Walks under a token that may be cancelled. Each goes abreast of the walk under a token that never is:
it still applies coercions, resolves what calls for no resolver and takes up what was fetched. At the first
directive that calls for a resolver while the token is cancelled, it is cut short. -/
namespace Directives

namespace Context
variable {σ : Type} {context : Context σ} {s : σ}

/-- The caller has cancelled the token. -/
def Raised (context : Context σ) (s : σ) : Prop :=
  context.token.family ∈ (context.moment s).raised

instance (context : Context σ) (s : σ) : Decidable (context.Raised s) :=
  inferInstanceAs (Decidable (_ ∈ _))

/-- The same surroundings, but that nobody cancels the token; its deadline stays. -/
def uncancelled (context : Context σ) : Context σ :=
  { context with
    moment := fun s =>
      { context.moment s with
        raised := (context.moment s).raised.filter (· ≠ context.token.family) } }

theorem not_raised_uncancelled (s : σ) : ¬ context.uncancelled.Raised s := by
  simp [Raised, uncancelled]

theorem check_of_raised (raised : context.Raised s) :
    (context.check s).outcome = .error (.cancelled "cancelled by caller") := by
  have ended : context.token.ended? (context.moment s) = some .byCaller :=
    if_pos (List.contains_iff_mem.mpr raised)
  rw [check, Cancel.Token.check, ended]
  rfl

theorem cancelled_of_not_raised (live : ¬ context.Raised s) {f : Fault}
    (failed : (context.check s).outcome = .error f) : f = .cancelled "deadline exceeded" := by
  obtain ⟨reason, ended, rfl⟩ := Cancel.Token.check_error failed
  rw [Cancel.Token.ended?, if_neg fun listed => live (List.contains_iff_mem.mp listed)] at ended
  split at ended
  · cases ended
    rfl
  · cases ended

theorem check_uncancelled (live : ¬ context.Raised s) :
    context.uncancelled.check s = context.check s := by
  have quiet : (context.moment s).raised.contains context.token.family = false :=
    Bool.eq_false_iff.mpr fun listed => live (List.contains_iff_mem.mp listed)
  have quiet' : (context.uncancelled.moment s).raised.contains context.token.family = false :=
    Bool.eq_false_iff.mpr fun listed => not_raised_uncancelled s (List.contains_iff_mem.mp listed)
  have token : context.uncancelled.token = context.token := rfl
  simp only [check, Cancel.Token.check, Cancel.Token.ended?, token, quiet, quiet']
  rfl

end Context

theorem Traced.bind_of_eq {κ σ ε α β : Type} {m m' : Traced κ σ ε α} {s : σ} (same : m s = m' s)
    (next : α → Traced κ σ ε β) : (m >>= next) s = (m' >>= next) s := by
  simp only [bind, Traced.bind, same]

/-- Two answers agree, and the states they leave correspond. -/
structure Traced.Answer.Alike {κ σ ε α : Type} (Same : σ → σ → Prop)
    (answer' answer : Traced.Answer κ σ ε α) : Prop where
  outcome : answer'.outcome = answer.outcome
  calls : answer'.calls = answer.calls
  state : Same answer'.state answer.state

namespace Registry
variable {σ : Type} {resolvers' resolvers : List (Resolver σ)}

theorem tokens_insertByLength {resolver' resolver : Resolver σ} (token : resolver'.token = resolver.token)
    (tokens : resolvers'.map Resolver.token = resolvers.map Resolver.token) :
    (insertByLength resolver' resolvers').map Resolver.token =
      (insertByLength resolver resolvers).map Resolver.token := by
  induction resolvers' generalizing resolvers with
  | nil =>
    cases resolvers with
    | nil => exact congrArg (fun token => [token]) token
    | cons => cases tokens
  | cons head' rest' ih =>
    cases resolvers with
    | nil => cases tokens
    | cons head rest =>
      obtain ⟨first, later⟩ := List.cons.inj tokens
      rw [insertByLength, insertByLength, token, first]
      split
      · simp only [List.map_cons, token, first, later]
      · simp only [List.map_cons, first, ih later]

theorem tokens_byLength (tokens : resolvers'.map Resolver.token = resolvers.map Resolver.token) :
    (byLength resolvers').map Resolver.token = (byLength resolvers).map Resolver.token := by
  induction resolvers' generalizing resolvers with
  | nil =>
    cases resolvers with
    | nil => rfl
    | cons => cases tokens
  | cons resolver' rest' ih =>
    cases resolvers with
    | nil => cases tokens
    | cons resolver rest =>
      obtain ⟨token, later⟩ := List.cons.inj tokens
      exact tokens_insertByLength token (ih later)

theorem tokens_firstMatch (tokens : resolvers'.map Resolver.token = resolvers.map Resolver.token)
    (stem : String) : (firstMatch resolvers' stem).map (fun found => (found.1.token, found.2)) =
      (firstMatch resolvers stem).map fun found => (found.1.token, found.2) := by
  induction resolvers' generalizing resolvers with
  | nil =>
    cases resolvers with
    | nil => rfl
    | cons => cases tokens
  | cons resolver' rest' ih =>
    cases resolvers with
    | nil => cases tokens
    | cons resolver rest =>
      obtain ⟨token, later⟩ := List.cons.inj tokens
      rw [firstMatch, firstMatch, token]
      cases payload? resolver.token stem with
      | none => exact ih later
      | some payload => simp only [Option.map_some, token]

end Registry

namespace Walk
variable {σ α : Type}

/-- A directive that calls for a resolver, and is not too deep. -/
def Entry.Asks (registry : Registry σ) (limit : Nat) (e : Entry) : Prop :=
  match e.event with
  | .directive raw depth => depth < limit ∧ (registry.resolver? (registry.split raw).stem).isSome
  | _ => False

/-- A resolver is started, or something is asked for outside that no coercion asks for. -/
def Entry.Fetches (registry : Registry σ) (e : Entry) : Prop :=
  match e.event with
  | .resolver _ _ => True
  | .lookup call => ∀ coercion ∈ registry.coercions, ∀ value s, call ∉ (coercion.apply value s).calls
  | _ => False

theorem Entry.Asks.eq_directive {registry : Registry σ} {limit : Nat} {e : Entry}
    (asks : e.Asks registry limit) : ∃ raw depth stack, e = ⟨.directive raw depth, stack⟩ := by
  obtain ⟨event, stack⟩ := e
  cases event with
  | directive raw depth => exact ⟨raw, depth, stack, rfl⟩
  | _ => exact asks.elim

theorem Entry.Asks.not_fetches {registry : Registry σ} {limit : Nat} {e : Entry}
    (asks : e.Asks registry limit) : ¬ e.Fetches registry := by
  obtain ⟨raw, depth, stack, rfl⟩ := asks.eq_directive
  exact id

/-- A walk under a token that may be cancelled, and one under a token that never is. The first may be cut
short where a directive calls for a resolver. Once its token is `cancelled` neither walk may fetch. -/
def sparing (Same : σ → σ → Prop) (registry : Registry σ) (context : Context σ) (limit : Nat)
    (cancelled : Prop) : Comparison σ where
  outside s' s := Same s' s ∧ (cancelled → context.Raised s')
  quiet e := cancelled → ¬ e.Asks registry limit ∧ ¬ e.Fetches registry
  ends e f := e.Asks registry limit ∧ f = .cancelled "cancelled by caller"

/-- Two walks that do the same throughout. -/
def alike (Same : σ → σ → Prop) : Comparison σ where
  outside := Same
  ends _ _ := False

theorem through_of_alike {Same : σ → σ → Prop} {answer' answer : Traced.Answer Entry (Walk σ) Fault α}
    (same : (alike Same).Through answer' answer ∨ (alike Same).Cut answer' answer) :
    (alike Same).Through answer' answer :=
  same.resolve_right fun ⟨_, _, _, _, _, ends, _⟩ => ends

end Walk

/-- Two programs that do the same as long as the token of the first is not cancelled. The token of the
second never is. Coercions do not see the token, and what they do does not take a cancellation back. -/
structure Spared {σ : Type} (Same : σ → σ → Prop) (registry free : Registry σ)
    (context freeContext : Context σ) : Prop where
  never : ∀ {s' s}, Same s' s → ¬ freeContext.Raised s
  check : ∀ {s' s}, Same s' s → ¬ context.Raised s' →
    (context.check s').outcome = (freeContext.check s).outcome
  tokens : registry.resolvers.map Resolver.token = free.resolvers.map Resolver.token
  resolve : ∀ resolver' ∈ registry.resolvers, ∀ resolver ∈ free.resolvers,
    resolver'.token = resolver.token → ∀ payload {s' s}, Same s' s → ¬ context.Raised s' →
      (resolver'.resolve context payload s').Alike Same (resolver.resolve freeContext payload s)
  coercions : free.coercions = registry.coercions
  apply : ∀ coercion ∈ registry.coercions, ∀ value {s' s}, Same s' s →
    (coercion.apply value s').Alike Same (coercion.apply value s)
  stays : ∀ coercion ∈ registry.coercions, ∀ value s, context.Raised s →
    context.Raised (coercion.apply value s).state

namespace Expansion
open Walk
variable {σ : Type} {registry free : Registry σ} {context freeContext : Context σ} {limit room : Nat}
  {raw : String} {w : Walk σ}

theorem coerce_congr (coercions : free.coercions = registry.coercions) (names : List String)
    (value : Tree) : coerce free names value = coerce registry names value := by
  induction names generalizing value with
  | nil => rfl
  | cons name rest ih =>
    have found : free.coercion? name = registry.coercion? name := by
      rw [Registry.coercion?, coercions, Registry.coercion?]
    rw [coerce, coerce, found]
    simp only [ih]

end Expansion

namespace Spared
open Walk Expansion
variable {σ : Type} {Same : σ → σ → Prop} {registry free : Registry σ}
  {context freeContext : Context σ} {limit : Nat} {cancelled : Prop} {w' w : Walk σ}

theorem split (spared : Spared Same registry free context freeContext) (text : String) :
    free.split text = registry.split text := by
  rw [Registry.split, spared.coercions, Registry.split]

theorem resolver? (spared : Spared Same registry free context freeContext) (stem : String) :
    (registry.resolver? stem = none ∧ free.resolver? stem = none) ∨
      ∃ resolver' resolver payload, registry.resolver? stem = some (resolver', payload) ∧
        free.resolver? stem = some (resolver, payload) ∧ resolver'.token = resolver.token := by
  have same := Registry.tokens_firstMatch (Registry.tokens_byLength spared.tokens) stem
  change (registry.resolver? stem).map _ = (free.resolver? stem).map _ at same
  cases found' : registry.resolver? stem with
  | none =>
    cases found : free.resolver? stem with
    | none => exact .inl ⟨rfl, rfl⟩
    | some => simp [found', found] at same
  | some pair' =>
    cases found : free.resolver? stem with
    | none => simp [found', found] at same
    | some pair =>
      simp only [found', found, Option.map_some, Option.some.injEq, Prod.mk.injEq] at same
      exact .inr ⟨pair'.1, pair.1, pair.2, by rw [← same.2], rfl, same.1⟩

theorem isSome_resolver? (spared : Spared Same registry free context freeContext) (stem : String) :
    (registry.resolver? stem).isSome = (free.resolver? stem).isSome := by
  rcases spared.resolver? stem with ⟨none', none⟩ | ⟨_, _, _, found', found, _⟩
  · rw [none', none]
  · rw [found', found]
    rfl

theorem isPlain (spared : Spared Same registry free context freeContext) (raw : String) :
    isPlain registry raw = isPlain free raw := by
  rw [Expansion.isPlain, Expansion.isPlain, spared.split]
  simp only [← Option.not_isSome, spared.isSome_resolver?]

theorem asks (spared : Spared Same registry free context freeContext) {e : Entry}
    (asks : e.Asks registry limit) : e.Asks free limit := by
  obtain ⟨raw, depth, stack, rfl⟩ := asks.eq_directive
  refine ⟨asks.1, ?_⟩
  rw [spared.split, ← spared.isSome_resolver?]
  exact asks.2

theorem abreast_coerce (spared : Spared Same registry free context freeContext) {c : Comparison σ}
    (limit : Nat)
    (same : ∀ {s' s}, c.outside s' s → Same s' s)
    (kept : ∀ {s' s t' t}, c.outside s' s → Same t' t →
      (context.Raised s' → context.Raised t') → c.outside t' t)
    (quiet : ∀ e : Entry, ¬ e.Asks registry limit → ¬ e.Fetches registry → c.quiet e)
    {names : List String} (known : registry.Knows names) (value : Tree) :
    c.Abreast (coerce registry names value) (coerce free names value) := by
  rw [coerce_congr spared.coercions]
  refine Comparison.Abreast.correspondence.compositional.coerce (fun coercion member value => ?_)
    known value
  have noted : c.Abreast (note ((Event.coercion coercion.name).deeper c.depth))
      (note (.coercion coercion.name)) :=
    .note fun stack => quiet _ (by simp [Entry.Asks]) (by simp [Entry.Fetches])
  refine noted.bind fun _ => .lift (fun beside => ?_) fun _ call asked stack => ?_
  · have answers := spared.apply coercion member value (same beside)
    exact ⟨answers.outcome, answers.calls,
      kept beside answers.state (spared.stays coercion member value _)⟩
  · refine quiet _ (by simp [Entry.Asks]) fun fetches => ?_
    exact fetches coercion member value _ asked

theorem abreast_coerce_sparing (spared : Spared Same registry free context freeContext)
    {names : List String} (known : registry.Knows names) (value : Tree) :
    (sparing Same registry context limit cancelled).Abreast (coerce registry names value)
      (coerce free names value) :=
  spared.abreast_coerce (c := sparing Same registry context limit cancelled) limit And.left
    (fun before same kept => ⟨same, kept ∘ before.2⟩) (fun _ quiet quiet' _ => ⟨quiet, quiet'⟩) known
    value

theorem through_fetch (spared : Spared Same registry free context freeContext) (stem : String)
    (beside : (alike Same).Beside w' w) (live : ¬ context.Raised w'.outside) :
    (alike Same).Through (fetch context stem (registry.resolver? stem) w')
      (fetch freeContext stem (free.resolver? stem) w) := by
  rcases spared.resolver? stem with ⟨none', none⟩ | ⟨resolver', resolver, payload, found', found, token⟩
  · rw [none', none]
    exact through_of_alike (Comparison.Abreast.pure _ beside)
  rw [found', found]
  have checks := spared.check beside.outside live
  cases checked : (freeContext.check w.outside).outcome with
  | error f =>
    rw [fetch_of_error checked, fetch_of_error (checks.trans checked)]
    exact ⟨rfl, beside, rfl, List.forall_mem_nil _⟩
  | ok =>
    rw [fetch_of_ok checked, fetch_of_ok (checks.trans checked), note_bind, note_bind, token]
    have answers := spared.resolve resolver' (Registry.mem_of_resolver? found').1 resolver
      (Registry.mem_of_resolver? found).1 token payload beside.outside live
    have resolves : (alike Same).Through (lift (resolver'.resolve context payload) w')
        (lift (resolver.resolve freeContext payload) w) :=
      .lift beside answers.outcome answers.calls answers.state fun _ _ => trivial
    have noted : (alike Same).shown ⟨.resolver resolver.token payload, w.stack⟩ =
        ⟨.resolver resolver.token payload, w'.stack⟩ := by rw [beside.stack]; rfl
    rw [← noted]
    exact resolves.prepend trivial

theorem through_evaluate (spared : Spared Same registry free context freeContext) (stem : String)
    {names : List String} (known : registry.Knows names)
    (beside : (alike Same).Beside w' w) (live : ¬ context.Raised w'.outside) :
    (alike Same).Through (evaluate registry context ⟨stem, names⟩ w')
      (evaluate free freeContext ⟨stem, names⟩ w) := by
  refine through_of_alike ((spared.through_fetch stem beside live).bind fun resolved => ?_)
  have coerced : (alike Same).Abreast (coerce registry names resolved.value)
      (coerce free names resolved.value) :=
    spared.abreast_coerce 0 id (fun _ same _ => same) (fun _ _ _ => trivial) known
      resolved.value
  exact coerced.bind fun _ => .pure _

/-- A directive is evaluated alike, unless the token is cancelled before it starts its resolver. -/
theorem abreast_evaluate (spared : Spared Same registry free context freeContext) {raw : String}
    {depth : Nat} (shallow : depth < limit) :
    (sparing Same registry context limit cancelled).Abreast
      (note (.directive raw depth) >>= fun _ => evaluate registry context (registry.split raw))
      (note (.directive raw depth) >>= fun _ => evaluate free freeContext (free.split raw)) := by
  have known := registry.knows_split raw
  rw [spared.split]
  cases found : registry.resolver? (registry.split raw).stem with
  | none =>
    have missing : free.resolver? (registry.split raw).stem = none := by
      rcases spared.resolver? (registry.split raw).stem with ⟨_, none⟩ | ⟨_, _, _, found', _⟩
      · exact none
      · cases found.symm.trans found'
    have noted : (sparing Same registry context limit cancelled).Abreast
        (note ((Event.directive raw depth).deeper 0)) (note (.directive raw depth)) :=
      .note fun stack _ => ⟨by simp [Entry.Asks, found], by simp [Entry.Fetches]⟩
    rw [Event.deeper_zero] at noted
    rw [evaluate, evaluate, found, missing]
    refine noted.bind fun _ => (Comparison.Abreast.pure _).bind fun resolved => ?_
    exact (spared.abreast_coerce_sparing known resolved.value).bind fun _ => .pure _
  | some pair =>
    intro w' w beside
    have shown : (sparing Same registry context limit cancelled).shown ⟨.directive raw depth, w.stack⟩ =
        ⟨.directive raw depth, w'.stack⟩ := by
      rw [Comparison.shown_eq_id ⟨rfl, rfl⟩, beside.stack]
      rfl
    rw [note_bind, note_bind, ← shown]
    by_cases raised : context.Raised w'.outside
    · -- The first walk is refused; whatever the second does now it does alone.
      rw [evaluate_of_error found (Context.check_of_raised raised)]
      have asks : Entry.Asks registry limit ⟨.directive raw depth, w.stack⟩ :=
        ⟨shallow, by rw [found]; rfl⟩
      exact .inr ⟨[], _, _, _, rfl, ⟨asks, rfl⟩, rfl, rfl, List.forall_mem_nil _⟩
    · have uncertain : ¬ cancelled := raised ∘ beside.outside.2
      have same := spared.through_evaluate (registry.split raw).stem known
        ⟨beside.outside.1, beside.stack⟩ raised
      have through : (sparing Same registry context limit cancelled).Through
          (evaluate registry context (registry.split raw) w')
          (evaluate free freeContext (registry.split raw) w) :=
        ⟨same.outcome, ⟨⟨same.state.outside, fun certain => absurd certain uncertain⟩, same.state.stack⟩,
          same.calls, fun _ _ certain => absurd certain uncertain⟩
      exact .inl (through.prepend fun certain => absurd certain uncertain)

theorem paired (spared : Spared Same registry free context freeContext) (limit : Nat)
    (cancelled : Prop) :
    Paired (sparing Same registry context limit cancelled) registry free context freeContext limit limit
      0 where
  level := (Nat.zero_add limit).symm
  plain := spared.isPlain
  evaluated raw depth _ shallow := by
    change (sparing Same registry context limit cancelled).Abreast
      (note (.directive raw (0 + depth)) >>= _) _
    rw [Nat.zero_add]
    exact spared.abreast_evaluate shallow
  deepest raw := by
    have noted : (sparing Same registry context limit cancelled).Abreast
        (note ((Event.directive raw limit).deeper 0)) (note (.directive raw limit)) :=
      .note fun stack _ => ⟨by simp [Entry.Asks], by simp [Entry.Fetches]⟩
    rw [Event.deeper_zero] at noted
    exact noted.bind fun _ => .fail _
  opened source stack _ := ⟨by simp [Entry.Asks], by simp [Entry.Fetches]⟩
  closed stack _ := ⟨by simp [Entry.Asks], by simp [Entry.Fetches]⟩
  cyclic := .inl rfl

end Spared

namespace Builtin
open Expansion
variable {σ : Type}

/-- What every program has does the same as long as the token is not cancelled, whatever else the secret
store does. -/
theorem spared (context : Context σ) :
    Spared (· = ·) registry registry context context.uncancelled where
  never _ := Context.not_raised_uncancelled _
  check same live := by rw [← same, Context.check_uncancelled live]
  tokens := rfl
  resolve resolver' member' resolver member token payload s' s same live := by
    obtain rfl : resolver' = resolver :=
      List.inj_on_of_nodup_map registry.tokens_nodup member' member token
    subst same
    suffices resolver'.resolve context payload s' = resolver'.resolve context.uncancelled payload s' by
      rw [this]
      exact ⟨rfl, rfl, rfl⟩
    have checks := (Context.check_uncancelled live).symm
    have file : readFile context payload s' = readFile context.uncancelled payload s' :=
      Traced.bind_of_eq checks _
    simp only [registry, resolvers, List.mem_cons, List.not_mem_nil, or_false] at member'
    rcases member' with rfl | rfl | rfl | rfl | rfl
    · rfl
    · rfl
    · exact Traced.bind_of_eq file _
    · exact Traced.bind_of_eq file _
    · cases found : context.secrets with
      | none => simp only [secretResolver, Context.uncancelled, found]
      | some store =>
        simp only [secretResolver, Context.uncancelled, found]
        exact Traced.bind_of_eq checks _
  coercions := rfl
  apply coercion member value s' s same := by
    subst same
    exact ⟨rfl, rfl, rfl⟩
  stays coercion member value s raised := by
    simp only [registry, coercions, List.mem_cons, List.not_mem_nil, or_false] at member
    rcases member with rfl | rfl <;> exact (Traced.Steady.ofExcept _).stays raised

end Builtin

end Directives
