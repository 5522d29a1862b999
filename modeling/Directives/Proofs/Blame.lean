import Mathlib.Data.List.Basic
import Directives.Proofs.Visiting

/-! Why walks fail. A walk that fails ends with the step that failed: a directive that there was no room
for or whose token was no longer live, a resolver or a coercion that refused, or a value whose source was
on the stack. A source that is on the stack is never taken up unnoticed. -/
namespace Directives

namespace Walk
variable {σ : Type}

/-- A value is taken up whose source is on the stack. -/
def Entry.Refuses (e : Entry) : Prop := ∃ source ∈ e.stack, e.event = .expand (some source)

/-- The entry at which a walk fails, the lookups since then, and the failure, not yet placed. -/
inductive Blame (registry : Registry σ) (context : Context σ) (limit : Nat) :
    Entry → List Entry → Fault → Prop
  | depth (raw : String) (stack : List String) :
    Blame registry context limit ⟨.directive raw limit, stack⟩ [] (.depthExceeded limit)
  | token {s : σ} {reason : Cancel.Reason} {depth : Nat} (raw : String) (stack : List String) :
    depth < limit → context.token.ended? (context.moment s) = some reason →
    Blame registry context limit ⟨.directive raw depth, stack⟩ [] (.cancelled reason.message)
  | resolver {resolver : Resolver σ} {payload : String} {s : σ} {f : Fault} (stack : List String) :
    resolver ∈ registry.resolvers → (resolver.resolve context payload s).outcome = .error f →
    Blame registry context limit ⟨.resolver resolver.token payload, stack⟩
      ((resolver.resolve context payload s).calls.map fun call => ⟨.lookup call, stack⟩) f
  | coercion {coercion : Coercion σ} {t : Tree} {s : σ} {f : Fault} (stack : List String) :
    coercion ∈ registry.coercions → (coercion.apply t s).outcome = .error f →
    Blame registry context limit ⟨.coercion coercion.name, stack⟩
      ((coercion.apply t s).calls.map fun call => ⟨.lookup call, stack⟩) f
  | cycle {source : String} {stack : List String} : source ∈ stack →
    Blame registry context limit ⟨.expand (some source), stack⟩ []
      (.circularReference (stack ++ [source]))

namespace Blame
variable {registry : Registry σ} {context : Context σ} {limit : Nat}

theorem lookup_of_mem {e e' : Entry} {lookups : List Entry} {f : Fault}
    (blame : Blame registry context limit e lookups f) (member : e' ∈ lookups) :
    ∃ call, e'.event = .lookup call := by
  cases blame with
  | depth | token | cycle => cases member
  | resolver | coercion =>
    obtain ⟨call, _, rfl⟩ := List.mem_map.mp member
    exact ⟨call, rfl⟩

theorem of_expand {source : String} {stack : List String} {lookups : List Entry} {f : Fault}
    (blame : Blame registry context limit ⟨.expand (some source), stack⟩ lookups f) :
    source ∈ stack ∧ lookups = [] ∧ f = .circularReference (stack ++ [source]) := by
  cases blame with
  | cycle again => exact ⟨again, rfl, rfl⟩

end Blame

/-- Among the entries of an action that succeeds none refuses, and an action that fails ends with an
entry to blame, which is the first that may refuse. -/
structure Accounted (registry : Registry σ) (context : Context σ) (limit : Nat) {α : Type}
    (m : Action σ α) : Prop where
  ok : ∀ {w : Walk σ} {a : α}, (m w).outcome = .ok a → ∀ e ∈ (m w).calls, ¬ e.Refuses
  error : ∀ {w : Walk σ} {f : Fault}, (m w).outcome = .error f →
    ∃ before e lookups cause, (m w).calls = before ++ e :: lookups ∧
      Blame registry context limit e lookups cause ∧ f.bare = cause.bare ∧
      ∀ e ∈ before, ¬ e.Refuses

namespace Accounted
variable {α β : Type} {registry : Registry σ} {context : Context σ} {limit : Nat}

theorem pure (a : α) : Accounted registry context limit (pure a : Action σ α) where
  ok _ _ member := nomatch member
  error failed := nomatch failed

theorem bind {m : Action σ α} {next : α → Action σ β} (first : Accounted registry context limit m)
    (rest : ∀ a, Accounted registry context limit (next a)) :
    Accounted registry context limit (m >>= next) where
  ok {w b} done := by
    obtain ⟨a, doneFirst, doneRest⟩ := Traced.bind_outcome_ok.mp done
    rw [Traced.bind_of_ok doneFirst]
    intro e member
    rcases List.mem_append.mp member with member | member
    · exact first.ok doneFirst e member
    · exact (rest a).ok doneRest e member
  error {w f} failed := by
    cases outcome : (m w).outcome with
    | error g =>
      rw [Traced.bind_of_error outcome] at failed ⊢
      cases failed
      exact first.error outcome
    | ok a =>
      rw [Traced.bind_of_ok outcome] at failed ⊢
      obtain ⟨before, e, lookups, cause, trail, blame, same, apart⟩ := (rest a).error failed
      refine ⟨(m w).calls ++ before, e, lookups, cause, ?_, blame, same, fun e member => ?_⟩
      · simp only [trail, List.append_assoc]
      · rcases List.mem_append.mp member with member | member
        · exact first.ok outcome e member
        · exact apart e member

theorem mapError {m : Action σ α} {place : Fault → Fault} (keeps : ∀ f, (place f).bare = f.bare)
    (accounted : Accounted registry context limit m) :
    Accounted registry context limit (m.mapError place) where
  ok done := accounted.ok (Traced.mapError_outcome_ok.mp done)
  error {w f} failed := by
    cases outcome : (m w).outcome with
    | ok a =>
      rw [Traced.mapError_of_ok outcome] at failed
      cases failed
    | error g =>
      rw [Traced.mapError_of_error outcome] at failed
      cases failed
      obtain ⟨before, e, lookups, cause, trail, blame, same, apart⟩ := accounted.error outcome
      exact ⟨before, e, lookups, cause, trail, blame, (keeps g).trans same, apart⟩

theorem compositional : Tree.Compositional
    (fun {α} (m : Action σ α) => Accounted registry context limit m) where
  pure := pure
  bind := bind
  mapError := mapError

theorem note {event : Event} (calm : ∀ source, event ≠ .expand (some source)) :
    Accounted registry context limit (note event : Action σ Unit) where
  ok _ e member := by
    obtain rfl := List.mem_singleton.mp member
    rintro ⟨source, _, same⟩
    exact calm source same
  error failed := nomatch failed

/-- A noted computation outside answers for its own failures. -/
theorem call {m : Run σ Fault α} {event : Event} (calm : ∀ source, event ≠ .expand (some source))
    (blame : ∀ {s f} stack, (m s).outcome = .error f → Blame registry context limit ⟨event, stack⟩
      ((m s).calls.map fun call => ⟨.lookup call, stack⟩) f) :
    Accounted registry context limit (Walk.note event >>= fun _ => lift m) where
  ok {w a} _ e member := by
    rw [note_bind] at member
    rcases List.mem_cons.mp member with rfl | member
    · rintro ⟨source, _, same⟩
      exact calm source same
    · obtain ⟨call, _, rfl⟩ := List.mem_map.mp member
      rintro ⟨source, _, same⟩
      cases same
  error {w f} failed := by
    rw [note_bind] at failed ⊢
    exact ⟨[], _, _, f, rfl, blame w.stack failed, rfl, fun _ member => nomatch member⟩

theorem complete {inner : Action σ α} (accounted : Accounted registry context limit inner) :
    Accounted registry context limit (complete inner) :=
  accounted.bind fun _ => (note (by simp)).bind fun _ => pure _

theorem within {source : Option String} {inner : Action σ α}
    (accounted : Accounted registry context limit inner) :
    Accounted registry context limit (within source inner) := by
  cases source with
  | none => exact (note (by simp)).bind fun _ => accounted.complete
  | some source =>
    have fresh {w : Walk σ} (new : source ∉ w.stack) :
        ¬ Entry.Refuses ⟨.expand (some source), w.stack⟩ := by
      rintro ⟨other, member, same⟩
      cases same
      exact new member
    constructor
    · intro w a done
      by_cases again : source ∈ w.stack
      · rw [within_some, guarded_of_mem again] at done
        cases done
      · rw [within_some, guarded_of_not_mem again] at done ⊢
        intro e member
        rcases List.mem_cons.mp member with rfl | member
        · exact fresh again
        · exact accounted.complete.ok done e member
    · intro w f failed
      by_cases again : source ∈ w.stack
      · rw [within_some, guarded_of_mem again] at failed ⊢
        cases failed
        exact ⟨[], _, [], _, rfl, .cycle again, rfl, fun _ member => nomatch member⟩
      · rw [within_some, guarded_of_not_mem again] at failed ⊢
        obtain ⟨before, e, lookups, cause, trail, blame, same, apart⟩ :=
          accounted.complete.error failed
        refine ⟨_ :: before, e, lookups, cause, congrArg (List.cons _) trail, blame, same, ?_⟩
        intro e member
        rcases List.mem_cons.mp member with rfl | member
        · exact fresh again
        · exact apart e member

section
variable {m : Action σ α} {w : Walk σ}

/-- A source that is on the stack is taken up at the very end of an action, if at all, and the action
fails for that reason. -/
theorem refused (accounted : Accounted registry context limit m) {source : String}
    {stack : List String} (member : ⟨.expand (some source), stack⟩ ∈ (m w).calls)
    (again : source ∈ stack) :
    ∃ before f, (m w).calls = before ++ [⟨.expand (some source), stack⟩] ∧
      (m w).outcome = .error f ∧ f.bare = .circularReference (stack ++ [source]) := by
  have refuses : Entry.Refuses ⟨.expand (some source), stack⟩ := ⟨source, again, rfl⟩
  cases outcome : (m w).outcome with
  | ok a => exact absurd refuses (accounted.ok outcome _ member)
  | error f =>
    obtain ⟨before, e, lookups, cause, trail, blame, same, apart⟩ := accounted.error outcome
    rw [trail] at member
    rcases List.mem_append.mp member with early | member
    · exact absurd refuses (apart _ early)
    · rcases List.mem_cons.mp member with rfl | late
      · obtain ⟨_, rfl, rfl⟩ := blame.of_expand
        exact ⟨before, f, trail, rfl, same⟩
      · obtain ⟨call, isLookup⟩ := blame.lookup_of_mem late
        cases isLookup

/-- An action that fails as it takes up a source has met a source on the stack. -/
theorem mem_stack_of_last (accounted : Accounted registry context limit m) {source : String}
    {stack : List String} {before : List Entry} {f : Fault} (failed : (m w).outcome = .error f)
    (trail : (m w).calls = before ++ [⟨.expand (some source), stack⟩]) : source ∈ stack := by
  obtain ⟨before', e, lookups, cause, trail', blame, _, _⟩ := accounted.error failed
  have ends : some ⟨.expand (some source), stack⟩ = (before' ++ e :: lookups).getLast? := by
    rw [← trail', trail, List.getLast?_concat]
  rw [List.getLast?_append_of_ne_nil _ (List.cons_ne_nil e lookups)] at ends
  rcases List.mem_cons.mp (List.mem_of_getLast? ends.symm) with rfl | late
  · exact blame.of_expand.1
  · obtain ⟨call, isLookup⟩ := blame.lookup_of_mem late
    cases isLookup

/-- A circular reference was met by the action itself, or a resolver or a coercion reported one. -/
theorem circular_origin (accounted : Accounted registry context limit m) {f : Fault}
    (failed : (m w).outcome = .error f) (circular : f.kind = .circularReference) :
    (∃ source stack, ⟨.expand (some source), stack⟩ ∈ (m w).calls ∧ source ∈ stack) ∨
    (∃ resolver ∈ registry.resolvers, ∃ payload s f,
      (resolver.resolve context payload s).outcome = .error f ∧ f.kind = .circularReference) ∨
    (∃ coercion ∈ registry.coercions, ∃ t s f,
      (coercion.apply t s).outcome = .error f ∧ f.kind = .circularReference) := by
  obtain ⟨before, e, lookups, cause, trail, blame, same, _⟩ := accounted.error failed
  have kind : cause.kind = .circularReference := (congrArg Fault.kind same).symm.trans circular
  cases blame with
  | depth | token => cases kind
  | resolver stack member refused => exact .inr (.inl ⟨_, member, _, _, _, refused, kind⟩)
  | coercion stack member refused => exact .inr (.inr ⟨_, member, _, _, _, refused, kind⟩)
  | cycle again =>
    exact .inl ⟨_, _, trail ▸ List.mem_append_right _ List.mem_cons_self, again⟩

end
end Accounted
end Walk

namespace Expansion
open Walk
variable {σ : Type} {registry : Registry σ} {context : Context σ} {limit : Nat}

/-- A directive that there is room for answers for the failures of its token, resolver and
coercions. -/
theorem accounted_evaluate {raw : String} {depth : Nat} (room : depth < limit) :
    Accounted registry context limit
      (note (.directive raw depth) >>= fun _ => evaluate registry context (registry.split raw)) := by
  have fetched : Accounted registry context limit (note (.directive raw depth) >>= fun _ =>
      fetch context (registry.split raw).stem (registry.resolver? (registry.split raw).stem)) := by
    cases found : registry.resolver? (registry.split raw).stem with
    | none => exact (Accounted.note (by simp)).bind fun _ => .pure _
    | some pair =>
      have member : pair.1 ∈ registry.resolvers := (Registry.mem_of_resolver? found).1
      have checked : Accounted registry context limit
          (note (.directive raw depth) >>= fun _ => lift context.check) :=
        .call (by simp) fun stack failed => by
          obtain ⟨reason, ended, rfl⟩ := Cancel.Token.check_error failed
          exact .token raw stack room ended
      rw [fetch, ← bind_assoc]
      exact checked.bind fun _ => .call (by simp) fun stack failed => .resolver stack member failed
  have coerced (value : Tree) : Accounted registry context limit
      (coerce registry (registry.split raw).coercions value) :=
    Accounted.compositional.coerce (fun coercion member t =>
      .call (by simp) fun stack failed => .coercion stack member failed)
      (registry.knows_split raw) value
  rw [evaluate, ← bind_assoc]
  exact fetched.bind fun resolved => (coerced resolved.value).bind fun _ => .pure _

theorem accounted_expandTree {room : Nat} (fits : room ≤ limit) (t : Tree) :
    Accounted registry context limit (expandTree registry context limit room t) := by
  induction room generalizing t with
  | zero =>
    refine Accounted.compositional.expand (fun raw _ => ?_) t
    constructor
    · intro w v done
      cases done
    · intro w f failed
      cases failed
      exact ⟨[], _, [], _, rfl, .depth raw w.stack, rfl, fun _ member => nomatch member⟩
  | succ room ih =>
    refine Accounted.compositional.expand (fun raw _ => ?_) t
    rw [expandDirective, ← bind_assoc]
    exact (accounted_evaluate (by omega)).bind fun resolved =>
      .within (ih (by omega) resolved.value)

end Expansion
end Directives
