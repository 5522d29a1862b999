import Mathlib.Control.Monad.Basic
import Directives.Builtin
import Directives.Proofs.Visiting
import Directives.Tree.Equality

/-! A resolved tree holds plain texts only, wherever these came from. So it is resolved already: another
walk through it, in whatever surroundings, changes nothing and calls nothing. -/
namespace Directives.Expansion
open Walk
variable {σ : Type} {registry : Registry σ} {context : Context σ} {limit room : Nat}

/-- No text in the tree is a directive. -/
def Settled (registry : Registry σ) (t : Tree) : Prop :=
  ∀ text ∈ t.texts, isPlain registry text = true

theorem Settled.expandTree {t : Tree} (settled : Settled registry t) :
    expandTree registry context limit room t = pure t :=
  Tree.visit_eq_pure t fun _ member => expandText_plain (settled _ member)

theorem within_ok {α : Type} {source : Option String} {inner : Action σ α} {w : Walk σ} {a : α}
    (done : (within source inner w).outcome = .ok a) : ∃ v, (inner v).outcome = .ok a := by
  have complete_ok {v : Walk σ} (done : (complete inner v).outcome = .ok a) :
      (inner v).outcome = .ok a := by
    obtain ⟨b, inside, same⟩ := Traced.bind_outcome_ok.mp done
    cases same
    exact inside
  cases source with
  | none => exact ⟨w, complete_ok done⟩
  | some source =>
    by_cases again : source ∈ w.stack
    · rw [within_some, guarded_of_mem again] at done
      cases done
    · rw [within_some, guarded_of_not_mem again] at done
      exact ⟨_, complete_ok done⟩

theorem settled_of_visit {expand : String → Action σ Tree}
    (directives : ∀ {raw w v}, (expand raw w).outcome = .ok v → Settled registry v) {t v : Tree}
    {w : Walk σ} (done : (t.visit (expandText registry expand) w).outcome = .ok v) :
    Settled registry v := by
  refine Tree.texts_visit (fun raw w v done => ?_) t w v done
  by_cases plain : isPlain registry raw = true
  · rw [expandText_plain plain] at done
    cases done
    simpa [Tree.texts] using plain
  · rw [expandText_directive plain, Traced.mapError_outcome_ok] at done
    exact directives done

/-- What every visit gives if the directives at the texts give it, a whole walk gives, as far as what is
asked of a tree is also true of the values that directives take up. -/
theorem outcome_of_expandTree (asked given : Tree → Prop)
    (taken : ∀ {raw w resolved}, (evaluate registry context (registry.split raw) w).outcome = .ok resolved →
      asked resolved.value)
    (visited : ∀ {expand : String → Action σ Tree},
      (∀ {raw w v}, (expand raw w).outcome = .ok v → given v) → ∀ {t w v}, asked t →
        (t.visit (expandText registry expand) w).outcome = .ok v → given v)
    {t v : Tree} {w : Walk σ} (holds : asked t)
    (done : (expandTree registry context limit room t w).outcome = .ok v) : given v := by
  -- Only the room shrinks: a value taken up may be larger than the tree around it.
  induction room generalizing t v w with
  | zero =>
    refine visited (fun {raw w v} done => ?_) holds done
    rw [expandDirective_zero] at done
    cases done
  | succ room ih =>
    refine visited (fun {raw w v} done => ?_) holds done
    cases evaluated : (evaluate registry context (registry.split raw) w).outcome with
    | error f =>
      rw [expandDirective_of_error evaluated] at done
      cases done
    | ok resolved =>
      rw [expandDirective_of_ok evaluated] at done
      obtain ⟨w', inside⟩ := within_ok done
      exact ih (taken evaluated) inside

/-- Every text that a walk leaves behind was left by the plain branch, also where resolvers and
coercions put in whole trees. -/
theorem settled_of_expandTree {t v : Tree} {w : Walk σ}
    (done : (expandTree registry context limit room t w).outcome = .ok v) : Settled registry v :=
  outcome_of_expandTree (fun _ => True) (Settled registry) (fun _ => trivial)
    (fun directives _ _ _ _ done => settled_of_visit directives done) trivial done

/-- Resolution is idempotent across surroundings. Once a tree is resolved, the outcome resolves to
itself over the same registry, with any world, secret store, token and limit, and the walk through it
evaluates no directive: no resolver, coercion or secret store is called. -/
theorem resolve_resolved {t v : Tree} {maxDepth : Nat} {s : σ}
    (done : (t.resolve registry context maxDepth s).outcome = .ok v)
    (context' : Context σ) (maxDepth' : Nat) (s' : σ) :
    v.walk registry context' maxDepth' { outside := s' } = ⟨.ok v, { outside := s' }, []⟩ ∧
      v.resolve registry context' maxDepth' s' = ⟨.ok v, s', []⟩ := by
  have settled : Settled registry v := settled_of_expandTree done
  have still : v.walk registry context' maxDepth' = pure v := settled.expandTree
  refine ⟨by rw [still]; rfl, ?_⟩
  rw [Tree.resolve, still]
  rfl

theorem resolve_resolved_cancelled :
    let t : Tree := .mapping [("a", .text "ENV->FOO::atoi"), ("b", .sequence [.text "plain"])]
    let v : Tree := .mapping [("a", .integer 5), ("b", .sequence [.text "plain"])]
    let world : World := { environment := ⟨[Text.toUtf8 "FOO=5"]⟩ }
    let cancelled : Context World :=
      { Context.ofWorlds none with moment := fun _ => { raised := [0] } }
    (t.resolve Builtin.registry (.ofWorlds none) 32 world).outcome = .ok v ∧
      v.walk Builtin.registry cancelled 0 { outside := {} } = ⟨.ok v, { outside := {} }, []⟩ ∧
      v.resolve Builtin.registry cancelled 0 {} = ⟨.ok v, {}, []⟩ := by
  intro t v world cancelled
  have done : (t.resolve Builtin.registry (.ofWorlds none) 32 world).outcome = .ok v := by
    decide +kernel
  exact ⟨done, resolve_resolved done cancelled 0 {}⟩

end Directives.Expansion
