import Directives.Proofs.Arrivals
import Directives.Proofs.Reports
import Directives.Tree.Equality

/-! Where walks fail. A walk fails at one directive, the innermost of those that fail, and the failure
names this directive, the coercion in which it failed, if any, and the way to it through the tree and
through all values taken up. -/
namespace Directives

namespace Fault

/-- What is known about a failure in a coercion, if it happened in one. -/
def inCoercion? (coercion : Option String) (f : Fault) : Fault :=
  coercion.elim f fun name => f.inCoercion name

theorem eq_of_bare {f g : Fault} (bare : f.bare = g.bare) (location : f.location = g.location)
    (directive : f.directive = g.directive) (coercion : f.coercion = g.coercion) : f = g := by
  cases f
  cases g
  simp only [Fault.bare, Fault.mk.injEq] at bare location directive coercion ⊢
  exact ⟨bare.1, location, directive, coercion, bare.2.2.2.2⟩

@[simp] theorem bare_inCoercion? (coercion : Option String) (f : Fault) :
    (f.inCoercion? coercion).bare = f.bare := by
  cases coercion <;> rfl

/-- A failure that knows of no place is placed where a walk places it, and nowhere else. -/
theorem placed_iff {f cause : Fault} (bare : cause.bare = cause) (coercion : Option String)
    (raw : String) (place : Location) :
    f = ((cause.inCoercion? coercion).inDirective raw).beneath place ↔
      f.bare = cause ∧ f.directive = some raw ∧ f.coercion = coercion ∧ f.location = place := by
  have nowhere : cause.location = [] := congrArg Fault.location bare.symm
  have unknown : cause.directive = none := congrArg Fault.directive bare.symm
  have plain : cause.coercion = none := congrArg Fault.coercion bare.symm
  have placed : (((cause.inCoercion? coercion).inDirective raw).beneath place).directive = some raw ∧
      (((cause.inCoercion? coercion).inDirective raw).beneath place).coercion = coercion ∧
      (((cause.inCoercion? coercion).inDirective raw).beneath place).location = place := by
    cases coercion <;> simp [inCoercion?, inCoercion, inDirective, beneath, nowhere, unknown, plain]
  constructor
  · rintro rfl
    refine ⟨?_, placed⟩
    rw [bare_beneath, bare_inDirective, bare_inCoercion?, bare]
  · rintro ⟨same, directive, suffix, location⟩
    refine eq_of_bare ?_ (location.trans placed.2.2.symm) (directive.trans placed.1.symm)
      (suffix.trans placed.2.1.symm)
    rw [bare_beneath, bare_inDirective, bare_inCoercion?, bare, same]

end Fault

namespace Expansion
open Walk
variable {σ : Type} {registry : Registry σ} {context : Context σ} {limit room : Nat} {t : Tree}
  {w : Walk σ} {raw : String} {coercion : Option String} {cause : Fault}

/-- Why a directive fails itself, and the coercion in which it does, if it is one: there is no room for
it; its token is no longer live or its resolver refuses; all coercions before one succeed and that one
refuses; or its value is good and its source is on the stack. -/
inductive Refuses (registry : Registry σ) (context : Context σ) (limit : Nat) :
    Nat → String → Walk σ → Option String → Fault → Prop
  | depth (raw : String) (w : Walk σ) :
    Refuses registry context limit 0 raw w none (.depthExceeded limit)
  | fetch {room : Nat} {raw : String} {w : Walk σ} {f : Fault} :
    (fetch context (registry.split raw).stem (registry.resolver? (registry.split raw).stem)
      w).outcome = .error f →
    Refuses registry context limit (room + 1) raw w none f
  | coercion {room : Nat} {raw name : String} {w fetched coerced : Walk σ} {resolved : Resolved}
      {value : Tree} {passed rest : List String} {coercion : Coercion σ} {f : Fault}
      {trail trail' : List Entry} :
    Expansion.fetch context (registry.split raw).stem (registry.resolver? (registry.split raw).stem) w =
      ⟨.ok resolved, fetched, trail⟩ →
    (registry.split raw).coercions = passed ++ name :: rest →
    coerce registry passed resolved.value fetched = ⟨.ok value, coerced, trail'⟩ →
    registry.coercion? name = some coercion →
    (coercion.apply value coerced.outside).outcome = .error f →
    Refuses registry context limit (room + 1) raw w (some name) f
  | cycle {room : Nat} {raw source : String} {w : Walk σ} {value : Tree} :
    (evaluate registry context (registry.split raw) w).outcome = .ok ⟨value, some source⟩ →
    source ∈ w.stack →
    Refuses registry context limit (room + 1) raw w none (.circularReference (w.stack ++ [source]))

theorem coerce_append (before after : List String) (value : Tree) :
    coerce registry (before ++ after) value =
      coerce registry before value >>= fun value => coerce registry after value := by
  induction before generalizing value with
  | nil => rfl
  | cons name rest ih =>
    rw [List.cons_append, coerce, coerce]
    cases registry.coercion? name with
    | none => rfl
    | some coercion => simp only [bind_assoc, ih]

section
variable {name : String} {coercion' : Coercion σ} {value : Tree}

theorem coerce_cons_of_ok {v : Tree} (found : registry.coercion? name = some coercion')
    (applied : (coercion'.apply value w.outside).outcome = .ok v) (rest : List String) :
    coerce registry (name :: rest) value w =
      let coerced := coerce registry rest v (lift (coercion'.apply value) w).state
      ⟨coerced.outcome, coerced.state,
        ⟨.coercion name, w.stack⟩ :: ((lift (coercion'.apply value) w).calls ++ coerced.calls)⟩ := by
  have done : ((lift (coercion'.apply value)).mapError (Fault.inCoercion name) w).outcome = .ok v :=
    Traced.mapError_of_ok applied
  rw [coerce, found]
  dsimp only
  rw [note_bind, Traced.bind_of_ok done]
  rfl

theorem coerce_cons_of_error {g : Fault} (found : registry.coercion? name = some coercion')
    (applied : (coercion'.apply value w.outside).outcome = .error g) (rest : List String) :
    coerce registry (name :: rest) value w =
      ⟨.error (g.inCoercion name), (lift (coercion'.apply value) w).state,
        ⟨.coercion name, w.stack⟩ :: (lift (coercion'.apply value) w).calls⟩ := by
  have failed : ((lift (coercion'.apply value)).mapError (Fault.inCoercion name) w).outcome =
      .error (g.inCoercion name) :=
    Traced.mapError_of_error applied
  rw [coerce, found]
  dsimp only
  rw [note_bind, Traced.bind_of_error failed]
  rfl

end

theorem coerce_error {names : List String} {value : Tree} {f : Fault}
    (known : registry.Knows names)
    (failed : (coerce registry names value w).outcome = .error f) :
    ∃ passed name rest coercion value' w' trail g, names = passed ++ name :: rest ∧
      coerce registry passed value w = ⟨.ok value', w', trail⟩ ∧
      registry.coercion? name = some coercion ∧
      (coercion.apply value' w'.outside).outcome = .error g := by
  induction names generalizing value w with
  | nil => cases failed
  | cons name rest ih =>
    obtain ⟨coercion, _, _, found⟩ := known name List.mem_cons_self
    cases applied : (coercion.apply value w.outside).outcome with
    | error g => exact ⟨[], name, rest, coercion, value, w, [], g, rfl, rfl, found, applied⟩
    | ok v =>
      rw [coerce_cons_of_ok found applied] at failed
      obtain ⟨passed, name', rest', coercion', value', w', trail, g, rfl, doneRest, found', refused⟩ :=
        ih (fun name member => known name (List.mem_cons_of_mem _ member)) failed
      exact ⟨name :: passed, name', rest', coercion', value', w',
        ⟨.coercion name, w.stack⟩ :: ((lift (coercion.apply value) w).calls ++ trail), g, rfl,
        by rw [coerce_cons_of_ok found applied, doneRest], found', refused⟩

/-- An evaluation that fails does so in the resolver or in the first coercion that fails. -/
theorem refuses_of_evaluate {f : Fault}
    (failed : (evaluate registry context (registry.split raw) w).outcome = .error f) :
    ∃ coercion cause, Refuses registry context limit (room + 1) raw w coercion cause := by
  rw [evaluate] at failed
  cases fetched : (fetch context (registry.split raw).stem
      (registry.resolver? (registry.split raw).stem) w).outcome with
  | error g => exact ⟨none, g, .fetch fetched⟩
  | ok resolved =>
    rw [Traced.bind_of_ok fetched] at failed
    cases coerced : (coerce registry (registry.split raw).coercions resolved.value
        (fetch context (registry.split raw).stem
          (registry.resolver? (registry.split raw).stem) w).state).outcome with
    | ok value => rw [Traced.bind_of_ok coerced] at failed; cases failed
    | error g =>
      obtain ⟨passed, name, rest, coercion, value, w', trail, cause, split, done, found, refused⟩ :=
        coerce_error (registry.knows_split raw) coerced
      exact ⟨some name, cause, .coercion (by rw [← fetched]) split done found refused⟩

/-- With room for it a directive fails as it is evaluated, or its value leads back to where it came
from. -/
theorem Refuses.evaluated
    (refuses : Refuses registry context limit (room + 1) raw w coercion cause) :
    (evaluate registry context (registry.split raw) w).outcome = .error (cause.inCoercion? coercion) ∨
      ∃ value source, (evaluate registry context (registry.split raw) w).outcome =
          .ok ⟨value, some source⟩ ∧ source ∈ w.stack ∧ coercion = none ∧
        cause = .circularReference (w.stack ++ [source]) := by
  cases refuses with
  | fetch failed =>
    left
    rw [evaluate, Traced.bind_of_error failed]
    rfl
  | @coercion _ _ name _ fetched coerced resolved value passed rest coercion _ _ _ done split passes
      found refused =>
    left
    have fetches : (Expansion.fetch context (registry.split raw).stem
        (registry.resolver? (registry.split raw).stem) w).outcome = .ok resolved := by rw [done]
    have passesBefore : (coerce registry passed resolved.value fetched).outcome = .ok value := by
      rw [passes]
    have coercing : (coerce registry (registry.split raw).coercions resolved.value fetched).outcome =
        .error (cause.inCoercion name) := by
      rw [split, coerce_append, Traced.bind_of_ok passesBefore, passes,
        coerce_cons_of_error found refused]
    rw [evaluate, Traced.bind_of_ok fetches, done, Traced.bind_of_error coercing]
    rfl
  | cycle done again => exact .inr ⟨_, _, done, again, rfl, rfl⟩

theorem expandDirective_of_mem {value : Tree} {source : String}
    (done : (evaluate registry context (registry.split raw) w).outcome = .ok ⟨value, some source⟩)
    (again : source ∈ w.stack) :
    (expandDirective registry context limit (room + 1) raw w).outcome =
      .error (.circularReference (w.stack ++ [source])) := by
  have kept : (evaluate registry context (registry.split raw) w).state.stack = w.stack :=
    (restores_evaluate _).stack w
  rw [expandDirective_of_ok done]
  dsimp only
  rw [within_some, guarded_of_mem (kept.symm ▸ again), kept]

theorem Refuses.outcome (refuses : Refuses registry context limit room raw w coercion cause) :
    (expandDirective registry context limit room raw w).outcome =
      .error (cause.inCoercion? coercion) := by
  cases room with
  | zero =>
    cases refuses
    rfl
  | succ room =>
    rcases refuses.evaluated with failed | ⟨value, source, done, again, rfl, rfl⟩
    · rw [expandDirective_of_error failed]
    · exact expandDirective_of_mem done again

/-- A walk that fails comes to a directive that fails itself. -/
theorem exists_refuses {f : Fault}
    (failed : (expandTree registry context limit room t w).outcome = .error f) :
    ∃ a coercion cause, Reaches registry context limit room t w a ∧
      Refuses registry context limit a.room a.raw a.walk coercion cause := by
  -- The room shrinks with each value taken up, and without room the directive itself fails.
  induction room generalizing t w f with
  | zero =>
    obtain ⟨place, raw, trail, w', _, meets, directive, _⟩ := expandTree_error failed
    exact ⟨_, none, _, .here meets directive, .depth raw w'⟩
  | succ room ih =>
    obtain ⟨place, raw, trail, w', g, meets, directive, expanded⟩ := expandTree_error failed
    cases evaluated : (evaluate registry context (registry.split raw) w').outcome with
    | error g' =>
      obtain ⟨coercion, cause, refuses⟩ := refuses_of_evaluate evaluated
      exact ⟨_, coercion, cause, .here meets directive, refuses⟩
    | ok resolved =>
      cases entered : (evaluate registry context (registry.split raw) w').state.entered?
          resolved.source with
      | none =>
        obtain ⟨name, origin, again⟩ := refused_of_entered? entered
        have kept : (evaluate registry context (registry.split raw) w').state.stack = w'.stack :=
          (restores_evaluate _).stack w'
        obtain ⟨value, source⟩ := resolved
        cases origin
        exact ⟨_, none, _, .here meets directive, .cycle evaluated (kept ▸ again)⟩
      | some inner =>
        have taken : (expandDirective registry context limit (room + 1) raw w').Resumes _ _ :=
          expandDirective_resumes evaluated entered
        have inside : (expandTree registry context limit room resolved.value inner).outcome = .error g := by
          rw [← leave_outcome _ resolved.source, ← taken.outcome, expanded]
        obtain ⟨a, coercion, cause, reaches, refuses⟩ := ih inside
        exact ⟨_, coercion, cause, .inside meets directive evaluated entered reaches, refuses⟩

theorem Reaches.failure {a : Arrival σ} (reaches : Reaches registry context limit room t w a)
    (refuses : Refuses registry context limit a.room a.raw a.walk coercion cause) :
    (expandTree registry context limit room t w).outcome =
        .error (((cause.inCoercion? coercion).inDirective a.raw).beneath a.places.flatten) ∧
      (expandTree registry context limit room t w).calls =
        a.trail ++ (expandDirective registry context limit a.room a.raw a.walk).calls := by
  obtain ⟨rest, calls, failure⟩ := reaches.walk
  obtain ⟨rfl, failed⟩ := failure _ refuses.outcome
  exact ⟨failed, by rw [calls, List.append_nil]⟩

/-- A walk that fails hands on the failure of a directive that it comes to, which is of the same kind. -/
theorem exists_cause {f : Fault}
    (failed : (expandTree registry context limit room t w).outcome = .error f) :
    ∃ a coercion cause, Reaches registry context limit room t w a ∧
      Refuses registry context limit a.room a.raw a.walk coercion cause ∧
      f = a.place (cause.inCoercion? coercion) ∧ f.kind = cause.kind := by
  obtain ⟨a, coercion, cause, reaches, refuses⟩ := exists_refuses failed
  have same : f = a.place (cause.inCoercion? coercion) :=
    Except.error.inj (failed.symm.trans (reaches.failure refuses).1)
  have bare : f.bare = cause.bare := by
    rw [same, Arrival.place, Fault.bare_beneath, Fault.bare_inDirective, Fault.bare_inCoercion?]
  have alike : f.bare.kind = cause.bare.kind := congrArg Fault.kind bare
  exact ⟨a, coercion, cause, reaches, refuses, same, alike⟩

/-- Resolvers and coercions leave it to the walk to say where a failure happened. -/
structure Unplaced (registry : Registry σ) (context : Context σ) : Prop where
  resolve : ∀ resolver ∈ registry.resolvers, ∀ payload s f,
    (resolver.resolve context payload s).outcome = .error f → f.bare = f
  apply : ∀ coercion ∈ registry.coercions, ∀ value s f,
    (coercion.apply value s).outcome = .error f → f.bare = f

/-- What is not fetched is refused because of the token, or by the resolver. -/
theorem fetch_error {stem : String} {f : Fault}
    (failed : (fetch context stem (registry.resolver? stem) w).outcome = .error f) :
    (∃ reason : Cancel.Reason, f = .cancelled reason.message) ∨
      ∃ resolver payload, registry.resolver? stem = some (resolver, payload) ∧
        (resolver.resolve context payload w.outside).outcome = .error f := by
  cases found : registry.resolver? stem with
  | none =>
    rw [found] at failed
    cases failed
  | some pair =>
    rw [found, Expansion.fetch] at failed
    cases checked : (lift context.check w).outcome with
    | error g =>
      rw [Traced.bind_of_error checked] at failed
      cases failed
      obtain ⟨reason, _, rfl⟩ := Cancel.Token.check_error checked
      exact .inl ⟨reason, rfl⟩
    | ok _ =>
      rw [Traced.bind_of_ok checked, note_bind] at failed
      exact .inr ⟨pair.1, pair.2, rfl, failed⟩

theorem Refuses.bare (unplaced : Unplaced registry context)
    (refuses : Refuses registry context limit room raw w coercion cause) : cause.bare = cause := by
  cases refuses with
  | depth | cycle => rfl
  | fetch failed =>
    rcases fetch_error failed with ⟨reason, rfl⟩ | ⟨resolver, payload, found, refused⟩
    · rfl
    · exact unplaced.resolve resolver (Registry.mem_of_resolver? found).1 payload _ _ refused
  | coercion _ _ _ found refused =>
    exact unplaced.apply _ (List.mem_of_find?_eq_some found) _ _ _ refused

/-- Every failure points at the place where it happened. A walk fails just if it comes to a directive
that fails itself: texts before it, in the tree and in each value around it, have been resolved without
failing. The failure names this directive, and the coercion if it failed in one; its location is the way
to the directive around which no other stands, from there through that one's value to the next, and so
on, and its path is the text of this location, built from its innermost step. -/
theorem failure_located (unplaced : Unplaced registry context) (maxDepth : Nat) (t : Tree) (s : σ)
    (f : Fault) :
    (t.walk registry context maxDepth { outside := s }).outcome = .error f ↔
      ∃ a coercion cause,
        Reaches registry context maxDepth maxDepth t { outside := s } a ∧
        Refuses registry context maxDepth a.room a.raw a.walk coercion cause ∧
        f.bare = cause ∧ f.directive = some a.raw ∧ f.coercion = coercion ∧
        f.location = a.places.flatten ∧
        f.path = a.places.flatten.foldr
          (fun step inner => some (Location.renderStep step inner)) none ∧
        (f.path = none ↔ a.places.flatten = []) := by
  constructor
  · intro failed
    obtain ⟨a, coercion, cause, reaches, refuses, same, _⟩ := exists_cause failed
    obtain ⟨bare, directive, suffix, location⟩ :=
      (Fault.placed_iff (refuses.bare unplaced) coercion a.raw a.places.flatten).mp same
    refine ⟨a, coercion, cause, reaches, refuses, bare, directive, suffix, location, ?_, ?_⟩
    · rw [Fault.path, location, Location.render_eq_foldr]
    · rw [Fault.path, location, Location.render_eq_none]
  · rintro ⟨a, coercion, cause, reaches, refuses, bare, directive, suffix, location, _, _⟩
    have same := (Fault.placed_iff (refuses.bare unplaced) coercion a.raw a.places.flatten).mpr
      ⟨bare, directive, suffix, location⟩
    rw [same]
    exact (reaches.failure refuses).1

end Expansion

namespace Builtin
open Expansion
variable {σ : Type} {context : Context σ}

/-- What every program has leaves it to the walk to place failures, if the secret store does. -/
theorem unplaced (read : ∀ store, context.secrets = some store → ∀ path mount s f,
    (store.read context.token path mount s).outcome = .error f → f.bare = f) :
    Unplaced registry context where
  resolve resolver member payload s f failed := by
    cases reports_of_resolve member failed with
    | missing | file | noStore | ended => rfl
    | store _ found _ refused => exact read _ found _ _ _ _ refused
  apply coercion member value s f failed := by
    cases unfit_of_apply member failed <;> rfl

end Builtin

namespace Expansion

/-- A store with one secret, which holds a directive deep inside. -/
def nestedReference : SecretStore World where
  read _ path _ :=
    if path = "x" then
      pure [("b", .sequence [.mapping [("c", .text "ENV->N::atoi::duration::atoi")]])]
    else Traced.fail (.access path "404 Not Found")

theorem failure_located_nested :
    let context := Context.ofWorlds (some nestedReference)
    let world : World := { environment := ⟨[Text.toUtf8 "N=5"]⟩ }
    let t : Tree := .mapping [("plain", .text "text"), ("a", .text "VAULT->x"), ("z", .text "ENV->N")]
    let f : Fault :=
      { Fault.typeCoercion "an integer" "duration" with
        location := [.key "a", .key "b", .index 0, .key "c"]
        directive := "ENV->N::atoi::duration::atoi"
        coercion := "atoi" }
    Unplaced Builtin.registry context ∧
      (t.walk Builtin.registry context 32 { outside := world }).outcome = .error f ∧
      f.path = some "a.b[0].c" ∧
      ∃ a coercion cause, Reaches Builtin.registry context 32 32 t { outside := world } a ∧
        Refuses Builtin.registry context 32 a.room a.raw a.walk coercion cause ∧
        f.directive = some a.raw ∧ f.coercion = coercion ∧ f.location = a.places.flatten := by
  intro context world t f
  have unplaced : Unplaced Builtin.registry context := by
    refine Builtin.unplaced fun store found path mount s f failed => ?_
    cases found
    simp only [nestedReference] at failed
    split at failed
    · cases failed
    · cases failed
      rfl
  have failed : (t.walk Builtin.registry context 32 { outside := world }).outcome = .error f := by
    decide +kernel
  obtain ⟨a, coercion, cause, reaches, refuses, _, directive, suffix, location, _⟩ :=
    (failure_located unplaced 32 t world f).mp failed
  exact ⟨unplaced, failed, by decide +kernel, a, coercion, cause, reaches, refuses, directive, suffix,
    location⟩

end Expansion
end Directives
