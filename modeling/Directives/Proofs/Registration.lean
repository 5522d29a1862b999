import Mathlib.Data.List.Perm.Basic
import Mathlib.Data.List.Nodup
import Directives.Expansion
import Directives.Proofs.Peeling

/-! What a registry is made of decides what it finds, and the order in which it is put together does not.
A registry is refused only for a repeated token or name, and the first repeated one is reported. -/
namespace Directives

namespace Registry
variable {σ : Type} {resolvers resolvers' : List (Resolver σ)} {coercions coercions' : List (Coercion σ)}

theorem firstRepeated_eq_none_iff {seen names : List String} :
    firstRepeated seen names = none ↔ names.Nodup ∧ ∀ name ∈ names, name ∉ seen := by
  refine ⟨nodup_of_firstRepeated, ?_⟩
  rintro ⟨nodup, apart⟩
  induction names generalizing seen with
  | nil => rfl
  | cons head tail ih =>
    obtain ⟨fresh, nodup⟩ := List.nodup_cons.mp nodup
    rw [firstRepeated, if_neg (apart head List.mem_cons_self)]
    refine ih nodup fun name member old => ?_
    rcases List.mem_cons.mp old with rfl | old
    · exact fresh member
    · exact apart name (List.mem_cons_of_mem _ member) old

/-- The first repeated name stands behind names that are not repeated. -/
theorem firstRepeated_eq_some_iff {seen names : List String} {name : String} :
    firstRepeated seen names = some name ↔ ∃ before after, names = before ++ name :: after ∧
      firstRepeated seen before = none ∧ (name ∈ before ∨ name ∈ seen) := by
  induction names generalizing seen with
  | nil => simp [firstRepeated]
  | cons head tail ih =>
    by_cases old : head ∈ seen
    · rw [firstRepeated, if_pos old]
      constructor
      · rintro ⟨⟩
        exact ⟨[], tail, rfl, rfl, .inr old⟩
      · rintro ⟨before, after, split, fresh, _⟩
        cases before with
        | nil => exact congrArg some (List.cons.inj split).1
        | cons first before =>
          obtain ⟨rfl, _⟩ := List.cons.inj split
          simp [firstRepeated, old] at fresh
    · rw [firstRepeated, if_neg old, ih]
      constructor
      · rintro ⟨before, after, rfl, fresh, repeated⟩
        refine ⟨head :: before, after, rfl, by rwa [firstRepeated, if_neg old], ?_⟩
        grind
      · rintro ⟨before, after, split, fresh, repeated⟩
        cases before with
        | nil =>
          obtain ⟨rfl, _⟩ := List.cons.inj split
          simp [old] at repeated
        | cons first before =>
          obtain ⟨rfl, rfl⟩ := List.cons.inj split
          rw [firstRepeated, if_neg old] at fresh
          exact ⟨before, after, rfl, fresh, by grind⟩

/-- Something is reported about the first item whose key is that of an item before it. -/
theorem exists_firstRepeated_iff {α β : Type} {key : α → String} {items : List α} {report : String → β}
    {b : β} :
    (∃ name, firstRepeated [] (items.map key) = some name ∧ b = report name) ↔
      ∃ before item after, items = before ++ item :: after ∧ (before.map key).Nodup ∧
        key item ∈ before.map key ∧ b = report (key item) := by
  simp only [firstRepeated_eq_some_iff, firstRepeated_eq_none_iff, List.not_mem_nil, not_false_eq_true,
    implies_true, and_true, or_false, List.map_eq_append_iff, List.map_eq_cons_iff]
  constructor
  · rintro ⟨_, ⟨_, _, ⟨before, _, rfl, rfl, item, after, rfl, rfl, rfl⟩, nodup, again⟩, reported⟩
    exact ⟨before, item, after, rfl, nodup, again, reported⟩
  · rintro ⟨before, item, after, rfl, nodup, again, reported⟩
    exact ⟨_, ⟨_, _, ⟨before, _, rfl, rfl, item, after, rfl, rfl, rfl⟩, nodup, again⟩, reported⟩

/-- A registry is built of what is given, if no token and no name is repeated. -/
theorem build_eq_ok_iff {registry : Registry σ} :
    build resolvers coercions = .ok registry ↔
      ((resolvers.map Resolver.token).Nodup ∧ (coercions.map Coercion.name).Nodup) ∧
        registry.resolvers = resolvers ∧ registry.coercions = coercions := by
  rw [build]
  split
  · next repeated =>
    have tokens : ¬ (resolvers.map Resolver.token).Nodup := fun nodup => by
      cases repeated.symm.trans (firstRepeated_eq_none_iff.mpr ⟨nodup, by simp⟩)
    simp [tokens]
  · next tokens =>
    split
    · next repeated =>
      have names : ¬ (coercions.map Coercion.name).Nodup := fun nodup => by
        cases repeated.symm.trans (firstRepeated_eq_none_iff.mpr ⟨nodup, by simp⟩)
      simp [names]
    · next names =>
      have distinct := And.intro (nodup_of_firstRepeated tokens).1 (nodup_of_firstRepeated names).1
      constructor
      · rintro ⟨⟩
        exact ⟨distinct, rfl, rfl⟩
      · obtain ⟨_, _, _, _⟩ := registry
        rintro ⟨_, rfl, rfl⟩
        rfl

theorem build_eq_error_iff {f : Fault} :
    build resolvers coercions = .error f ↔
      (∃ before resolver after, resolvers = before ++ resolver :: after ∧
        (before.map Resolver.token).Nodup ∧ resolver.token ∈ before.map Resolver.token ∧
        f = .alreadyRegistered resolver.token) ∨
      (resolvers.map Resolver.token).Nodup ∧
        ∃ before coercion after, coercions = before ++ coercion :: after ∧
          (before.map Coercion.name).Nodup ∧ coercion.name ∈ before.map Coercion.name ∧
          f = .alreadyRegistered coercion.name := by
  have reported : build resolvers coercions = .error f ↔
      (∃ token, firstRepeated [] (resolvers.map Resolver.token) = some token ∧ f = .alreadyRegistered token) ∨
      firstRepeated [] (resolvers.map Resolver.token) = none ∧
        ∃ name, firstRepeated [] (coercions.map Coercion.name) = some name ∧ f = .alreadyRegistered name := by
    rw [build]
    split
    · next token again => simp [again, eq_comm]
    · next tokens =>
      split
      · next name again => simp [tokens, again, eq_comm]
      · next names => simp [tokens, names]
  rw [reported, exists_firstRepeated_iff, exists_firstRepeated_iff, firstRepeated_eq_none_iff]
  simp

/-- One resolver stands before another if its token is not shorter. -/
def NotShorter (resolver other : Resolver σ) : Prop :=
  other.token.utf8ByteSize ≤ resolver.token.utf8ByteSize

theorem sorted_insertByLength {resolver : Resolver σ} (sorted : resolvers.Pairwise NotShorter) :
    (insertByLength resolver resolvers).Pairwise NotShorter := by
  induction resolvers with
  | nil => exact List.pairwise_singleton _ _
  | cons head rest ih =>
    obtain ⟨first, sorted'⟩ := List.pairwise_cons.mp sorted
    rw [insertByLength]
    split
    · next long =>
      refine List.pairwise_cons.mpr ⟨fun other member => ?_, sorted⟩
      rcases List.mem_cons.mp member with rfl | member
      · exact long
      · exact Nat.le_trans (first other member) long
    · next short =>
      refine List.pairwise_cons.mpr ⟨fun other member => ?_, ih sorted'⟩
      rcases List.mem_cons.mp ((perm_insertByLength resolver rest).mem_iff.mp member) with rfl | member
      · exact Nat.le_of_not_le short
      · exact first other member

theorem sorted_byLength (resolvers : List (Resolver σ)) : (byLength resolvers).Pairwise NotShorter := by
  induction resolvers with
  | nil => exact List.Pairwise.nil
  | cons resolver rest ih => exact sorted_insertByLength ih

/-- Where longer tokens are tried first, no token that begins the stem is longer than the one found. -/
theorem notShorter_of_firstMatch (sorted : resolvers.Pairwise NotShorter) {stem payload : String}
    {resolver : Resolver σ} (found : firstMatch resolvers stem = some (resolver, payload)) :
    ∀ other ∈ resolvers, ∀ rest, stem = other.token ++ rest → NotShorter resolver other := by
  induction resolvers with
  | nil => cases found
  | cons head tail ih =>
    obtain ⟨first, sorted⟩ := List.pairwise_cons.mp sorted
    intro other member rest starts
    rw [firstMatch] at found
    split at found
    · cases found
      rcases List.mem_cons.mp member with rfl | member
      · exact Nat.le_refl _
      · exact first other member
    · next unmatched =>
      rcases List.mem_cons.mp member with rfl | member
      · cases unmatched.symm.trans (payload?_eq_some_iff.mpr starts)
      · exact ih sorted found other member rest starts

theorem eq_append_of_prefix {token other : String} (begins : other.toList <+: token.toList) :
    ∃ more, token = other ++ more := by
  obtain ⟨more, same⟩ := begins
  exact ⟨String.ofList more, by rw [← String.toList_inj]; simp [same]⟩

/-- Of two beginnings of one text the shorter one begins the longer one. -/
theorem begins_of_size_le {stem token other payload rest : String} (whole : stem = token ++ payload)
    (starts : stem = other ++ rest) (short : other.utf8ByteSize ≤ token.utf8ByteSize) :
    ∃ more, token = other ++ more := by
  have begins : token.toList <+: stem.toList := by simp [whole]
  have begins' : other.toList <+: stem.toList := by simp [starts]
  rcases List.prefix_or_prefix_of_prefix begins' begins with shorter | longer
  · exact eq_append_of_prefix shorter
  · -- Nothing is left behind the token, since the other one is not longer.
    obtain ⟨more, rfl⟩ := eq_append_of_prefix longer
    rw [String.utf8ByteSize_append] at short
    have none : more = "" := String.utf8ByteSize_eq_zero_iff.mp (by omega)
    exact ⟨"", by simp [none]⟩

/-- A registry finds the resolver whose token begins the stem and every other token that does. -/
theorem resolver?_eq_some_iff {registry : Registry σ} {stem payload : String} {resolver : Resolver σ} :
    registry.resolver? stem = some (resolver, payload) ↔
      resolver ∈ registry.resolvers ∧ stem = resolver.token ++ payload ∧
        ∀ other ∈ registry.resolvers, ∀ rest, stem = other.token ++ rest →
          ∃ more, resolver.token = other.token ++ more := by
  have complete {resolver payload} (found : registry.resolver? stem = some (resolver, payload)) :
      resolver ∈ registry.resolvers ∧ stem = resolver.token ++ payload ∧
        ∀ other ∈ registry.resolvers, ∀ rest, stem = other.token ++ rest →
          ∃ more, resolver.token = other.token ++ more := by
    obtain ⟨member, matched⟩ := mem_of_resolver? found
    have whole := payload?_eq_some_iff.mp matched
    refine ⟨member, whole, fun other listed rest starts => ?_⟩
    have tried := (perm_byLength registry.resolvers).mem_iff.mpr listed
    have longest := notShorter_of_firstMatch (sorted_byLength registry.resolvers) found
    exact begins_of_size_le whole starts (longest other tried rest starts)
  refine ⟨complete, ?_⟩
  rintro ⟨member, starts, longest⟩
  cases found : registry.resolver? stem with
  | none => exact absurd starts (resolver?_eq_none_iff.mp found resolver member payload)
  | some pair =>
    obtain ⟨member', starts', longest'⟩ := complete found
    obtain ⟨more, longer⟩ := longest pair.1 member' pair.2 starts'
    obtain ⟨more', longer'⟩ := longest' resolver member payload starts
    have token : pair.1.token = resolver.token := by
      refine String.toList_inj.mp (List.IsPrefix.eq_of_length_le ⟨more.toList, by simp [longer]⟩ ?_)
      simp [longer']
    have itself : pair.1 = resolver := List.inj_on_of_nodup_map registry.tokens_nodup member' member token
    have same : pair.2 = payload := by simpa [token] using starts'.symm.trans starts
    rw [← itself, ← same]

theorem resolver?_perm {registry' registry : Registry σ}
    (perm : registry'.resolvers.Perm registry.resolvers) (stem : String) :
    registry'.resolver? stem = registry.resolver? stem := by
  refine Option.ext fun ⟨resolver, payload⟩ => ?_
  rw [resolver?_eq_some_iff, resolver?_eq_some_iff]
  simp only [perm.mem_iff]

theorem coercion?_eq_some_iff {registry : Registry σ} {name : String} {coercion : Coercion σ} :
    registry.coercion? name = some coercion ↔ coercion ∈ registry.coercions ∧ coercion.name = name := by
  have sound {coercion} (found : registry.coercion? name = some coercion) :
      coercion ∈ registry.coercions ∧ coercion.name = name :=
    ⟨List.mem_of_find?_eq_some found, by simpa using List.find?_some found⟩
  refine ⟨sound, ?_⟩
  rintro ⟨member, named⟩
  cases found : registry.coercion? name with
  | none => exact absurd named (by simpa using List.find?_eq_none.mp found coercion member)
  | some other =>
    obtain ⟨member', named'⟩ := sound found
    exact congrArg some (List.inj_on_of_nodup_map registry.names_nodup member' member (named'.trans named.symm))

/-- Two registries that find the same. -/
structure Same (registry' registry : Registry σ) : Prop where
  resolver? : ∀ stem, registry'.resolver? stem = registry.resolver? stem
  split : ∀ text, registry'.split text = registry.split text
  coercion? : ∀ name, registry'.coercion? name = registry.coercion? name

theorem same_of_perm {registry' registry : Registry σ} (resolvers : registry'.resolvers.Perm registry.resolvers)
    (coercions : registry'.coercions.Perm registry.coercions) : Same registry' registry where
  resolver? := resolver?_perm resolvers
  split text := Split.ofText_congr (fun _ => (coercions.map Coercion.name).mem_iff) text
  coercion? name := Option.ext fun coercion => by
    rw [coercion?_eq_some_iff, coercion?_eq_some_iff, coercions.mem_iff]

end Registry

namespace Expansion
open Walk
variable {σ : Type} {registry' registry : Registry σ} {context : Context σ} {limit : Nat}

theorem coerce_of_same (same : Registry.Same registry' registry) (names : List String) (value : Tree) :
    coerce registry' names value = coerce registry names value := by
  induction names generalizing value with
  | nil => rfl
  | cons name rest ih =>
    rw [coerce, coerce, same.coercion?]
    simp only [ih]

theorem evaluate_of_same (same : Registry.Same registry' registry) (split : Split) :
    evaluate registry' context split = evaluate registry context split := by
  simp only [evaluate, same.resolver?, coerce_of_same same]

theorem expandText_of_same (same : Registry.Same registry' registry) (expand : String → Action σ Tree) :
    expandText registry' expand = expandText registry expand := by
  have plain (raw : String) : isPlain registry' raw = isPlain registry raw := by
    simp only [isPlain, same.split, same.resolver?]
  funext raw
  rw [expandText, expandText, plain]

theorem expandDirective_of_same (same : Registry.Same registry' registry) (room : Nat) :
    expandDirective registry' context limit room = expandDirective registry context limit room := by
  induction room with
  | zero => rfl
  | succ room ih =>
    funext raw
    simp only [expandDirective, same.split, evaluate_of_same same, expandText_of_same same, ih]

theorem walk_of_same (same : Registry.Same registry' registry) (context : Context σ) (maxDepth : Nat)
    (t : Tree) : t.walk registry' context maxDepth = t.walk registry context maxDepth := by
  rw [Tree.walk, Tree.walk, expandTree, expandTree, expandText_of_same same, expandDirective_of_same same]

end Expansion

namespace Registry
variable {σ : Type}

/-- Building a registry does not depend on the order. It succeeds just if the tokens are distinct and the
names are distinct; otherwise it reports the first resolver whose token is that of one before it, or, if
there is none, the first coercion whose name is. What is built finds the resolver whose token begins the
stem, and of several the longest, which every other begins; the rest of the stem is the payload. And from
any other order a registry is built that finds the same resolvers, takes texts apart in the same way and
finds the same coercions, so that every tree is resolved by the same steps. -/
theorem build_order_free (resolvers : List (Resolver σ)) (coercions : List (Coercion σ)) :
    ((∃ registry, build resolvers coercions = .ok registry) ↔
      (resolvers.map Resolver.token).Nodup ∧ (coercions.map Coercion.name).Nodup) ∧
    (∀ f, build resolvers coercions = .error f ↔
      (∃ before resolver after, resolvers = before ++ resolver :: after ∧
        (before.map Resolver.token).Nodup ∧ resolver.token ∈ before.map Resolver.token ∧
        f = .alreadyRegistered resolver.token) ∨
      (resolvers.map Resolver.token).Nodup ∧
        ∃ before coercion after, coercions = before ++ coercion :: after ∧
          (before.map Coercion.name).Nodup ∧ coercion.name ∈ before.map Coercion.name ∧
          f = .alreadyRegistered coercion.name) ∧
    ∀ registry, build resolvers coercions = .ok registry →
      (∀ stem resolver payload, registry.resolver? stem = some (resolver, payload) ↔
        resolver ∈ resolvers ∧ stem = resolver.token ++ payload ∧
          ∀ other ∈ resolvers, ∀ rest, stem = other.token ++ rest →
            ∃ more, resolver.token = other.token ++ more) ∧
      (∀ stem, registry.resolver? stem = none ↔
        ∀ resolver ∈ resolvers, ∀ payload, stem ≠ resolver.token ++ payload) ∧
      ∀ resolvers' coercions', resolvers'.Perm resolvers → coercions'.Perm coercions →
        ∃ registry', build resolvers' coercions' = .ok registry' ∧
          (∀ stem, registry'.resolver? stem = registry.resolver? stem) ∧
          (∀ text, registry'.split text = registry.split text) ∧
          (∀ name, registry'.coercion? name = registry.coercion? name) ∧
          ∀ context maxDepth (t : Tree), t.walk registry' context maxDepth = t.walk registry context maxDepth ∧
            t.resolve registry' context maxDepth = t.resolve registry context maxDepth := by
  refine ⟨⟨?_, ?_⟩, fun f => build_eq_error_iff, fun registry built => ?_⟩
  · rintro ⟨registry, built⟩
    exact (build_eq_ok_iff.mp built).1
  · rintro ⟨tokens, names⟩
    exact ⟨⟨resolvers, coercions, tokens, names⟩, build_eq_ok_iff.mpr ⟨⟨tokens, names⟩, rfl, rfl⟩⟩
  obtain ⟨⟨tokens, names⟩, rfl, rfl⟩ := build_eq_ok_iff.mp built
  refine ⟨fun stem resolver payload => resolver?_eq_some_iff, fun stem => resolver?_eq_none_iff, ?_⟩
  intro resolvers' coercions' perm perm'
  have tokens' := (perm.map Resolver.token).nodup_iff.mpr tokens
  have names' := (perm'.map Coercion.name).nodup_iff.mpr names
  have same : Same ⟨resolvers', coercions', tokens', names'⟩ registry := same_of_perm perm perm'
  refine ⟨⟨resolvers', coercions', tokens', names'⟩,
    build_eq_ok_iff.mpr ⟨⟨tokens', names'⟩, rfl, rfl⟩, same.resolver?, same.split, same.coercion?, ?_⟩
  intro context maxDepth t
  have walks := Expansion.walk_of_same same context maxDepth t
  exact ⟨walks, funext fun s => by rw [Tree.resolve, Tree.resolve, walks]⟩

end Registry
end Directives
