import Directives.Builtin
import Directives.Proofs.Abreast
import Directives.Tree.Equality

/-! The limit on how deep directives nest. A walk under a lower limit goes abreast of the one under a
higher limit and is cut short at the first directive that is too deep for it. So the limit only matters to
walks that are cut short. -/
namespace Directives

namespace Walk
variable {σ α : Type} {trail : List Entry}

def Entry.level (e : Entry) : Nat :=
  match e.event with
  | .directive _ depth => depth + 1
  | _ => 0

/-- One more than the greatest depth of a directive in a trail, and zero if there is none. -/
def reach (trail : List Entry) : Nat := trail.foldr (fun e deepest => max e.level deepest) 0

theorem reach_le {bound : Nat} : reach trail ≤ bound ↔ ∀ e ∈ trail, e.level ≤ bound := by
  induction trail with
  | nil => simp [reach]
  | cons e rest ih => rw [List.forall_mem_cons, ← ih]; exact Nat.max_le

/-- The limit decided the answer: the walk ended at a directive as deep as the limit, for that reason. -/
def TooDeep (limit : Nat) (answer : Traced.Answer Entry (Walk σ) Fault α) : Prop :=
  ∃ before raw stack f, answer.calls = before ++ [⟨.directive raw limit, stack⟩] ∧
    answer.outcome = .error f ∧ f.bare = .depthExceeded limit

end Walk

namespace Expansion
open Walk
variable {σ : Type} {registry : Registry σ} {context : Context σ} {S : σ → Prop} {limit' limit : Nat}

/-- The first of two walks may be cut short at the directives as deep as its limit. -/
def limited (S : σ → Prop) (limit : Nat) : Comparison σ where
  outside s' s := S s' ∧ S s
  quiet e := e.level ≤ limit
  ends e f := (∃ raw, e.event = .directive raw limit) ∧ f = .depthExceeded limit

theorem paired_limited (steady : registry.Steady context S) (lower : limit' ≤ limit) :
    Paired (limited S limit') registry registry context context limit' limit (limit - limit') := by
  refine .of_steady steady Iff.rfl ?_ (Nat.sub_le _ _) (fun event stack shallow => ?_)
    (fun raw _ => ⟨⟨raw, ?_⟩, rfl⟩) (.inl rfl)
  · change limit' + (limit - limit') = 0 + limit
    omega
  · change Entry.level ⟨event, stack⟩ ≤ limit'
    cases event with
    | directive raw depth =>
      have fits := shallow raw depth rfl
      change depth + 1 ≤ limit'
      omega
    | _ => exact Nat.zero_le _
  · rw [Nat.sub_sub_self lower]

/-- Under the lower of two limits a walk is the same as under the higher, and its directives are not as
deep as the limit; or it is cut short at one that is. -/
theorem lower_limit (steady : registry.Steady context S) (lower : limit' ≤ limit) (t : Tree) {s' s : σ}
    (h' : S s') (h : S s) :
    let tight := t.walk registry context limit' { outside := s' }
    let loose := t.walk registry context limit { outside := s }
    (tight.outcome = loose.outcome ∧ tight.calls = loose.calls ∧ reach loose.calls ≤ limit') ∨
      (TooDeep limit' tight ∧ tight.calls <+: loose.calls ∧ limit' < reach loose.calls) := by
  intro tight loose
  have abreast : (limited S limit').Abreast (t.walk registry context limit')
      (expandTree registry context limit (limit' + (limit - limit')) t) :=
    (paired_limited steady lower).expandTree (Nat.le_of_eq (Nat.add_sub_of_le lower)) t
  rw [Nat.add_sub_of_le lower] at abreast
  have shown := (limited S limit').map_shown ⟨rfl, rfl⟩
  have beside : (limited S limit').Beside { outside := s' } { outside := s } := ⟨⟨h', h⟩, rfl⟩
  rcases abreast beside with same | ⟨before, e, after, f, failed, ⟨⟨raw, deep⟩, bare⟩, tightCalls,
    looseCalls, _⟩
  · have calls := same.calls
    rw [shown] at calls
    exact .inl ⟨same.outcome, calls, reach_le.mpr same.quiet⟩
  · rw [shown] at tightCalls
    obtain ⟨event, stack⟩ := e
    obtain rfl : event = .directive raw limit' := deep
    have looseCalls : loose.calls = before ++ ⟨.directive raw limit', stack⟩ :: after := looseCalls
    refine .inr ⟨⟨before, raw, stack, f, tightCalls, failed, bare⟩, ⟨after, ?_⟩, ?_⟩
    · rw [looseCalls, List.append_cons]
      exact congrArg (· ++ after) tightCalls
    · have member : ⟨.directive raw limit', stack⟩ ∈ loose.calls := by simp [looseCalls]
      exact reach_le.mp (Nat.le_refl _) _ member

/-- The limit on depth is exact. Let a walk end in a way that its limit did not decide. Under every limit
that leaves room for its deepest directive, the walk ends in the same way with the same trail, whatever
the limit; under every lower limit the walk ends at the limit, after a beginning of that trail. -/
theorem depth_limit_exact (steady : registry.Steady context S) (maxDepth : Nat) (t : Tree) {s s' : σ}
    (h : S s) (h' : S s')
    (undecided : ¬ TooDeep maxDepth (t.walk registry context maxDepth { outside := s })) :
    let first := t.walk registry context maxDepth { outside := s }
    let other (limit : Nat) := t.walk registry context limit { outside := s' }
    (∀ limit, reach first.calls ≤ limit →
      (other limit).outcome = first.outcome ∧ (other limit).calls = first.calls) ∧
    (∀ limit, limit < reach first.calls →
      TooDeep limit (other limit) ∧ (other limit).calls <+: first.calls) := by
  intro first other
  have deepest : reach first.calls ≤ maxDepth := by
    rcases lower_limit steady (Nat.le_refl maxDepth) t h h with ⟨_, _, deepest⟩ | ⟨decided, _⟩
    · exact deepest
    · exact absurd decided undecided
  constructor
  · intro limit enough
    rcases Nat.le_total limit maxDepth with lower | higher
    · rcases lower_limit steady lower t h' h with ⟨same, calls, _⟩ | ⟨_, _, deeper⟩
      · exact ⟨same, calls⟩
      · exact absurd deeper (Nat.not_lt.mpr enough)
    · rcases lower_limit steady higher t h h' with ⟨same, calls, _⟩ | ⟨decided, _⟩
      · exact ⟨same.symm, calls.symm⟩
      · exact absurd decided undecided
  · intro limit scarce
    have lower : limit ≤ maxDepth := Nat.le_trans (Nat.le_of_lt scarce) deepest
    rcases lower_limit steady lower t h' h with ⟨_, _, enough⟩ | ⟨decided, calls, _⟩
    · exact absurd scarce (Nat.not_lt.mpr enough)
    · exact ⟨decided, calls⟩

theorem depth_limit_exact_chain :
    let world : World :=
      { environment := ⟨[Text.toUtf8 "FOO=ENV->BAR", Text.toUtf8 "BAR=5::atoi", Text.toUtf8 "X=1"]⟩ }
    let t : Tree := .mapping [("a", .text "ENV->FOO"), ("b", .text "ENV->X")]
    let walked (limit : Nat) :=
      t.walk Builtin.registry (.ofWorlds none) limit { outside := world }
    Builtin.registry.Steady (.ofWorlds none) (· = world) ∧ ¬ TooDeep 32 (walked 32) ∧
      reach (walked 32).calls = 3 ∧
      (∀ limit, 3 ≤ limit →
        (walked limit).outcome = .ok (.mapping [("a", .integer 5), ("b", .text "1")])) ∧
      TooDeep 2 (walked 2) := by
  intro world t walked
  have steady := Builtin.registry_steady_world world
  have done : (walked 32).outcome = .ok (.mapping [("a", .integer 5), ("b", .text "1")]) := by
    decide +kernel
  have undecided : ¬ TooDeep 32 (walked 32) := by
    rintro ⟨_, _, _, _, _, failed, _⟩
    cases done.symm.trans failed
  have deepest : reach (walked 32).calls = 3 := by decide +kernel
  obtain ⟨enough, scarce⟩ := depth_limit_exact steady 32 t rfl rfl undecided
  exact ⟨steady, undecided, deepest,
    fun limit above => (enough limit (Nat.le_trans (Nat.le_of_eq deepest) above)).1.trans done,
    (scarce 2 (by rw [deepest]; decide)).1⟩

end Expansion
end Directives
