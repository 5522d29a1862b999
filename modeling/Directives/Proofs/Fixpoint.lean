import Directives.Proofs.Stability

/-! The texts that resolution leaves behind, told by how they are written. Resolution stops at a text
that begins with no token and ends with no name it could take off; and a name is taken off only where
the stem before it has a character and lies on one line. -/
namespace Directives.Expansion
variable {σ : Type} {registry : Registry σ}

/-- A text with no token at its beginning and, at its end, no name that has a stem before it. -/
structure Unmarked (registry : Registry σ) (text : String) : Prop where
  begins : ∀ resolver ∈ registry.resolvers, ∀ payload, text ≠ resolver.token ++ payload
  ends : ∀ coercion ∈ registry.coercions, ∀ stem, text = stem ++ "::" ++ coercion.name →
    stem = "" ∨ '\n' ∈ stem.toList

theorem isStem_eq_false_iff {stem : String} :
    Split.isStem stem.toList = false ↔ stem = "" ∨ '\n' ∈ stem.toList := by
  simp only [Split.isStem, Bool.and_eq_false_iff, Bool.not_eq_false', List.isEmpty_iff,
    String.toList_eq_nil_iff, List.contains_iff_mem]

theorem coercions_split_eq_nil_iff {text : String} :
    (registry.split text).coercions = [] ↔ ∀ coercion ∈ registry.coercions, ∀ stem,
      text = stem ++ "::" ++ coercion.name → stem = "" ∨ '\n' ∈ stem.toList := by
  rw [Registry.split, Split.coercions_ofText_eq_nil_iff, Split.peel?_eq_none_iff, List.forall_mem_map]
  have written (stem name : String) :
      text = stem ++ "::" ++ name ↔ text.toList = stem.toList ++ ':' :: ':' :: name.toList := by
    simp [← String.toList_inj]
  constructor
  · intro fits coercion member stem whole
    exact isStem_eq_false_iff.mp (fits coercion member stem.toList ((written _ _).mp whole))
  · intro ends coercion member rest whole
    have stem : rest = (String.ofList rest).toList := String.toList_ofList.symm
    rw [stem] at whole ⊢
    exact isStem_eq_false_iff.mpr (ends coercion member _ ((written _ _).mpr whole))

theorem isPlain_iff {text : String} : isPlain registry text = true ↔ Unmarked registry text := by
  have whole : (registry.split text).coercions = [] → (registry.split text).stem = text := by
    intro bare
    rw [Registry.split, Split.ofText_of_peel?_eq_none (Split.coercions_ofText_eq_nil_iff.mp bare)]
  simp only [isPlain, Bool.and_eq_true, List.isEmpty_iff, Option.isNone_iff_eq_none]
  constructor
  · rintro ⟨unmatched, bare⟩
    rw [whole bare] at unmatched
    exact ⟨Registry.resolver?_eq_none_iff.mp unmatched, coercions_split_eq_nil_iff.mp bare⟩
  · rintro ⟨begins, ends⟩
    have bare := coercions_split_eq_nil_iff.mpr ends
    rw [whole bare]
    exact ⟨Registry.resolver?_eq_none_iff.mpr begins, bare⟩

/-- Which texts are directives does not depend on what there is to look at. -/
theorem isPlain_elsewhere {τ : Type} {text : String}
    (plain : isPlain (Builtin.registry : Registry σ) text = true) :
    isPlain (Builtin.registry : Registry τ) text = true := by
  obtain ⟨begins, ends⟩ := isPlain_iff.mp plain
  have tokens : (Builtin.registry : Registry τ).resolvers.map Resolver.token =
      (Builtin.registry : Registry σ).resolvers.map Resolver.token := rfl
  have names : (Builtin.registry : Registry τ).coercions.map Coercion.name =
      (Builtin.registry : Registry σ).coercions.map Coercion.name := rfl
  refine isPlain_iff.mpr ⟨fun resolver member => ?_, fun coercion member => ?_⟩
  · obtain ⟨other, known, same⟩ := List.mem_map.mp (tokens ▸ List.mem_map_of_mem member)
    exact same ▸ begins other known
  · obtain ⟨other, known, same⟩ := List.mem_map.mp (names ▸ List.mem_map_of_mem member)
    exact same ▸ ends other known

/-- What resolution can give is told by the texts alone: a tree is the outcome of some resolution
exactly when none of its texts begins with a token, and none ends with the name of a coercion behind
a stem of one line. Behind an empty stem and behind one of several lines a name stays. -/
theorem resolved_iff_unmarked (context : Context σ) (maxDepth : Nat) (s : σ) (v : Tree) :
    (∃ t : Tree, (t.resolve registry context maxDepth s).outcome = .ok v) ↔
      ∀ text ∈ v.texts,
        (∀ resolver ∈ registry.resolvers, ∀ payload, text ≠ resolver.token ++ payload) ∧
        ∀ coercion ∈ registry.coercions, ∀ stem, text = stem ++ "::" ++ coercion.name →
          stem = "" ∨ '\n' ∈ stem.toList := by
  constructor
  · rintro ⟨t, done⟩ text member
    have settled : Settled registry v := settled_of_expandTree done
    obtain ⟨begins, ends⟩ := isPlain_iff.mp (settled text member)
    exact ⟨begins, ends⟩
  · intro unmarked
    have settled : Settled registry v := fun text member =>
      isPlain_iff.mpr ⟨(unmarked text member).1, (unmarked text member).2⟩
    refine ⟨v, ?_⟩
    rw [Tree.resolve, Tree.walk, settled.expandTree]
    rfl

/-- A name behind a stem of two lines stays, and it is the name of a coercion. -/
theorem resolved_with_name :
    let t : Tree := .text "5s\n::duration"
    (t.resolve Builtin.registry (.ofWorlds none) 32 {}).outcome = .ok t ∧
      ∃ text ∈ t.texts, ∃ coercion ∈ (Builtin.registry : Registry World).coercions,
        ∃ stem, stem ≠ "" ∧ text = stem ++ "::" ++ coercion.name := by
  intro t
  have same : (t.resolve Builtin.registry (.ofWorlds none) 32 {}).outcome = .ok t := by decide +kernel
  refine ⟨same, _, List.mem_cons_self, _, List.mem_cons_of_mem _ List.mem_cons_self, "5s\n", ?_⟩
  decide

end Directives.Expansion
