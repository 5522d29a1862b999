import Directives.Proofs.Failures
import Directives.Proofs.Grammars
import Directives.Proofs.Registration

/-! Internal failures. The names that texts are taken apart by are the names that coercions are found under,
so a walk never comes to a name without a coercion. What is called internal was called so by a resolver, a
coercion or the secret store. -/
namespace Directives

namespace Registry
variable {σ : Type} {resolvers : List (Resolver σ)} {coercions : List (Coercion σ)} {registry : Registry σ}

/-- The grammar made of the names of the coercions, in whatever order they are listed, takes texts apart as
the registry does. -/
theorem grammar_of_build (built : build resolvers coercions = .ok registry) {names : List String}
    (perm : names.Perm (coercions.map Coercion.name)) :
    ∃ grammar, Grammar.ofNames? names = some grammar ∧
      ∀ text, grammar.split text = registry.split text := by
  obtain ⟨_, _, rfl⟩ := build_eq_ok_iff.mp built
  obtain ⟨grammar, made⟩ := Grammar.exists_ofNames? names
  refine ⟨grammar, made, fun text => ?_⟩
  rw [Grammar.split_eq made]
  exact Split.ofText_congr (fun _ => perm.mem_iff) text

end Registry

namespace Builtin
variable {σ : Type} {context : Context σ} {f : Fault}

theorem Reports.of_internal {resolver : Resolver σ} {payload : String} {s : σ}
    (reports : Reports context resolver payload s f) (internal : f.kind = .internal) :
    ∃ store path mount s, context.secrets = some store ∧
      (store.read context.token path mount s).outcome = .error f := by
  cases reports with
  | missing | file | noStore | ended => cases internal
  | store _ found _ refused => exact ⟨_, _, _, _, found, refused⟩

theorem Unfit.not_internal (unfit : Unfit f) : f.kind ≠ .internal := by
  cases unfit <;> exact fun same => by cases same

end Builtin

namespace Expansion
open Walk
variable {σ : Type} {registry : Registry σ} {context : Context σ} {limit room : Nat} {raw : String}
  {w : Walk σ} {coercion : Option String} {cause : Fault}

/-- A directive fails internally only where its resolver or one of its coercions does. -/
theorem Refuses.of_internal (refuses : Refuses registry context limit room raw w coercion cause)
    (internal : cause.kind = .internal) :
    (coercion = none ∧ ∃ resolver payload,
      registry.resolver? (registry.split raw).stem = some (resolver, payload) ∧
        (resolver.resolve context payload w.outside).outcome = .error cause) ∨
      ∃ found ∈ registry.coercions, coercion = some found.name ∧
        found.name ∈ (registry.split raw).coercions ∧
        ∃ value s, (found.apply value s).outcome = .error cause := by
  cases refuses with
  | depth | cycle => cases internal
  | fetch failed =>
    rcases fetch_error failed with ⟨reason, rfl⟩ | ⟨resolver, payload, found, refused⟩
    · cases internal
    · exact .inl ⟨rfl, resolver, payload, found, refused⟩
  | @coercion _ _ name _ _ _ _ _ _ _ applied _ _ _ _ parts _ found refused =>
    obtain ⟨member, rfl⟩ := Registry.coercion?_eq_some_iff.mp found
    refine .inr ⟨applied, member, rfl, ?_, _, _, refused⟩
    rw [parts]
    exact List.mem_append_right _ List.mem_cons_self

/-- A registry never misses a coercion, and resolution reports as internal only what was called so outside of
it. Whatever the names are, the grammar that is made of them takes texts apart as the registry does, and for
each name that it takes off there is the coercion under just this name. If resolution fails internally, then
at a directive that it came to, the resolver for it or one of its coercions answered with this failure, which
was placed at the directive and else handed on as it was; and if the resolver is one that every program has,
the secret store answered so, while the coercion is none that every program has. -/
theorem internal_handed_on {resolvers : List (Resolver σ)} {coercions : List (Coercion σ)}
    (built : Registry.build resolvers coercions = .ok registry) :
    (∀ names, names.Perm (coercions.map Coercion.name) →
      ∃ grammar, Grammar.ofNames? names = some grammar ∧ ∀ text,
        grammar.split text = registry.split text ∧
        ∀ name ∈ (grammar.split text).coercions,
          ∃ coercion ∈ coercions, coercion.name = name ∧ registry.coercion? name = some coercion) ∧
    ∀ context maxDepth (t : Tree) s f, (t.resolve registry context maxDepth s).outcome = .error f →
      f.kind = .internal →
      ∃ a, Reaches registry context maxDepth maxDepth t { outside := s } a ∧
        ((∃ resolver ∈ resolvers, ∃ payload g,
          registry.resolver? (registry.split a.raw).stem = some (resolver, payload) ∧
          (resolver.resolve context payload a.walk.outside).outcome = .error g ∧ g.kind = .internal ∧
          f = a.place g ∧
          (resolver ∈ Builtin.resolvers → ∃ store path mount s', context.secrets = some store ∧
            (store.read context.token path mount s').outcome = .error g)) ∨
        ∃ coercion ∈ coercions, coercion ∉ Builtin.coercions ∧
          coercion.name ∈ (registry.split a.raw).coercions ∧
          ∃ value s' g, (coercion.apply value s').outcome = .error g ∧ g.kind = .internal ∧
            f = a.place (g.inCoercion coercion.name)) := by
  obtain ⟨_, rfl, rfl⟩ := Registry.build_eq_ok_iff.mp built
  constructor
  · intro names perm
    obtain ⟨grammar, made, same⟩ := Registry.grammar_of_build built perm
    refine ⟨grammar, made, fun text => ⟨same text, fun name member => ?_⟩⟩
    exact Registry.coercion?_of_split (same text ▸ member)
  · intro context maxDepth t s f failed internal
    obtain ⟨a, coercion, cause, reaches, refuses, same, alike⟩ := exists_cause failed
    have kind : cause.kind = .internal := alike.symm.trans internal
    refine ⟨a, reaches, ?_⟩
    rcases refuses.of_internal kind with ⟨rfl, resolver, payload, found, refused⟩ |
      ⟨applied, member, rfl, named, value, s', refused⟩
    · left
      refine ⟨resolver, (Registry.mem_of_resolver? found).1, payload, cause, found, refused, kind, same, ?_⟩
      intro every
      exact (Builtin.reports_of_resolve every refused).of_internal kind
    · right
      refine ⟨applied, member, fun every => ?_, named, value, s', cause, refused, kind, same⟩
      exact (Builtin.unfit_of_apply every refused).not_internal kind

/-- Coercions whose names mean something in a pattern, and one without a name. -/
def oddlyNamed : Registry World where
  resolvers := Builtin.resolvers
  coercions :=
    [{ name := "", apply := fun _ => Traced.fail (.internal "no name") },
     { name := ".+|(x::y)", apply := fun value => pure value },
     { name := "y)", apply := fun value => pure value }]
  tokens_nodup := by decide
  names_nodup := by decide

theorem internal_handed_on_oddlyNamed :
    let names := ["y)", "", ".+|(x::y)"]
    let text := "a::.+|(x::y)::"
    let f := ((Fault.internal "no name").inCoercion "").inDirective text
    Registry.build oddlyNamed.resolvers oddlyNamed.coercions = .ok oddlyNamed ∧
      names.Perm (oddlyNamed.coercions.map Coercion.name) ∧
      oddlyNamed.split text = ⟨"a::.+|(x", ["y)", ""]⟩ ∧
      (∃ grammar, Grammar.ofNames? names = some grammar ∧ grammar.split text = oddlyNamed.split text) ∧
      ((Tree.text text).resolve oddlyNamed (Context.ofWorlds none) 32 {}).outcome = .error f ∧
      f.kind = .internal ∧
      ((∃ resolver ∈ oddlyNamed.resolvers, ∃ payload s g,
          (resolver.resolve (Context.ofWorlds none) payload s).outcome = .error g ∧ g.kind = .internal) ∨
        ∃ coercion ∈ oddlyNamed.coercions, coercion ∉ Builtin.coercions ∧
          ∃ value s g, (coercion.apply value s).outcome = .error g ∧ g.kind = .internal) := by
  intro names text f
  have built : Registry.build oddlyNamed.resolvers oddlyNamed.coercions = .ok oddlyNamed :=
    Registry.build_eq_ok_iff.mpr ⟨⟨oddlyNamed.tokens_nodup, oddlyNamed.names_nodup⟩, rfl, rfl⟩
  have perm : names.Perm (oddlyNamed.coercions.map Coercion.name) := by decide
  have failed : ((Tree.text text).resolve oddlyNamed (Context.ofWorlds none) 32 {}).outcome = .error f := by
    decide +kernel
  obtain ⟨grammars, answered⟩ := internal_handed_on built
  obtain ⟨grammar, made, agrees⟩ := grammars names perm
  refine ⟨built, perm, by decide +kernel, ⟨grammar, made, (agrees text).1⟩, failed, rfl, ?_⟩
  obtain ⟨a, _, ⟨resolver, member, payload, g, _, refused, internal, _⟩ |
    ⟨coercion, member, own, _, value, s, g, refused, internal, _⟩⟩ := answered _ _ _ _ f failed rfl
  · exact .inl ⟨resolver, member, payload, _, g, refused, internal⟩
  · exact .inr ⟨coercion, member, own, value, s, g, refused, internal⟩

end Expansion
end Directives
