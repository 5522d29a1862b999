import Mathlib
import Directives.Proofs.Abreast
import Directives.Proofs.Origins

/-! Including is the same as loading. A directive that stands for a tree adds one source at the bottom of
the stack and one level of depth, and nothing else. The walk through the included tree cannot come back to
that source, unless the walk through the loaded tree comes back to it too and so never ends. -/
namespace Directives

namespace Expansion
open Walk
variable {σ : Type} {registry : Registry σ} {context : Context σ} {S : σ → Prop} {t : Tree}

/-- The walks begin in surroundings that hold still, the first inside an expansion. -/
def inward (S : σ → Prop) (outer : List String) (depth : Nat) : Comparison σ where
  outside s' s := S s' ∧ S s
  outer := outer
  depth := depth
  ends _ _ := True

theorem paired_inward (steady : registry.Steady context S) (outer : List String)
    {depth limit' limit extra : Nat} (level : limit' + extra = depth + limit) (fits : extra ≤ limit) :
    Paired (inward S outer depth) registry registry context context limit' limit extra :=
  .of_steady steady Iff.rfl level fits (fun _ _ _ => trivial) (fun _ _ => trivial)
    (.inr fun _ _ _ => trivial)

section
variable {limit room : Nat} {w : Walk σ} {a : Arrival σ} {v : Tree}

theorem Reaches.completed (reaches : Reaches registry context limit room t w a)
    (done : (expandTree registry context limit room t w).outcome = .ok v) :
    ∃ u, (expandDirective registry context limit a.room a.raw a.walk).outcome = .ok u := by
  obtain ⟨_, _, failure⟩ := reaches.walk
  cases outcome : (expandDirective registry context limit a.room a.raw a.walk).outcome with
  | ok u => exact ⟨u, rfl⟩
  | error f => cases done.symm.trans (failure f outcome).2

theorem Reaches.mem_calls (reaches : Reaches registry context limit room t w a) {e : Entry}
    (member : e ∈ (expandDirective registry context limit a.room a.raw a.walk).calls) :
    e ∈ (expandTree registry context limit room t w).calls := by
  obtain ⟨rest, calls, _⟩ := reaches.walk
  rw [calls]
  exact List.mem_append_right _ (List.mem_append_left _ member)

theorem mem_expandDirective_calls {raw : String} {e : Entry}
    (member : e ∈ (evaluate registry context (registry.split raw) w).calls) :
    e ∈ (expandDirective registry context limit (room + 1) raw w).calls := by
  cases outcome : (evaluate registry context (registry.split raw) w).outcome with
  | error f =>
    rw [expandDirective_of_error outcome]
    exact List.mem_cons_of_mem _ member
  | ok resolved =>
    rw [expandDirective_of_ok outcome]
    exact List.mem_append_left _ (List.mem_cons_of_mem _ member)

/-- A walk that comes to a directive is not through a tree without directives. -/
theorem Reaches.unsettled (reaches : Reaches registry context limit room t w a) :
    ¬ Settled registry t := by
  intro settled
  obtain ⟨rest, calls, _⟩ := reaches.walk
  obtain ⟨rest', begins⟩ := expandDirective_calls a.raw a.walk
  rw [settled.expandTree, begins] at calls
  simp [Traced.pure_apply] at calls

end

/-- No walk that succeeds comes back to its own tree. The walk through the tree inside would be the whole
walk once more, so it would take up the tree there as well, whose source is on its stack. -/
theorem Reaches.not_itself (steady : registry.Steady context S) {limit : Nat} {s : σ} (h : S s)
    {v : Tree} (done : (t.walk registry context limit { outside := s }).outcome = .ok v)
    {a : Arrival σ} (reaches : Reaches registry context limit limit t { outside := s } a)
    (there : S a.walk.outside) {room : Nat} (fits : a.room = room + 1) {source : String} :
    (evaluate registry context (registry.split a.raw) a.walk).outcome ≠ .ok ⟨t, some source⟩ := by
  intro evaluated
  obtain ⟨u, completed⟩ := reaches.completed done
  rw [fits] at completed
  have kept : (evaluate registry context (registry.split a.raw) a.walk).state.stack = a.walk.stack :=
    (restores_evaluate _).stack a.walk
  by_cases again : source ∈ a.walk.stack
  · cases completed.symm.trans (expandDirective_of_mem evaluated again)
  have entered : (evaluate registry context (registry.split a.raw) a.walk).state.entered?
      (some source) =
        some ((evaluate registry context (registry.split a.raw) a.walk).state.below source) := by
    simp [entered?, kept, again]
  have taken : (expandDirective registry context limit (room + 1) a.raw a.walk).Resumes _ _ :=
    expandDirective_resumes evaluated entered
  have inside : (expandTree registry context limit room t
      ((evaluate registry context (registry.split a.raw) a.walk).state.below source)).outcome =
        .ok u := by
    rw [← leave_outcome _ (some source), ← taken.outcome, completed]
  have shallow : room + 1 ≤ limit := fits ▸ reaches.room_le
  -- The inner walk has less room, and all that it completes the whole walk completes in the same way.
  have paired : Paired (inward S (a.walk.stack ++ [source]) (limit - room)) registry registry context
      context limit limit (limit - room) :=
    paired_inward steady _ (by omega) (by omega)
  have abreast := paired.expandTree (show room + (limit - room) ≤ limit by omega) t
  rw [show room + (limit - room) = limit by omega] at abreast
  have stays : At S a.walk.stack (evaluate registry context (registry.split a.raw) a.walk).state :=
    (steady_evaluate steady a.raw).stays ⟨there, rfl⟩
  have beside : (inward S (a.walk.stack ++ [source]) (limit - room)).Beside
      ((evaluate registry context (registry.split a.raw) a.walk).state.below source)
      { outside := s } := by
    refine ⟨⟨stays.1, h⟩, ?_⟩
    rw [below_stack, kept]
    exact (List.append_nil _).symm
  have same := abreast.completed beside inside
  have member : ⟨.expand (some source), a.walk.stack⟩ ∈
      (t.walk registry context limit { outside := s }).calls := by
    refine reaches.mem_calls ?_
    rw [fits, taken.calls, kept]
    simp
  have accounted : Accounted registry context limit (expandTree registry context limit room t) :=
    accounted_expandTree (Nat.le_of_succ_le shallow) t
  refine accounted.ok inside _ (same.calls ▸ List.mem_map_of_mem member) ⟨source, ?_, rfl⟩
  exact List.mem_append_left _ (List.mem_append_right _ List.mem_cons_self)

/-- A directive stands for a tree: it gives the tree with a source, and no other directive gives anything
else with this source that holds directives, at least none that looks up such things. -/
structure Includes (registry : Registry σ) (context : Context σ) (S : σ → Prop) (among : Call → Prop)
    (raw : String) (t : Tree) (source : String) : Prop where
  directive : ¬ isPlain registry raw = true
  gives : ∀ {w}, S w.outside →
    (evaluate registry context (registry.split raw) w).outcome = .ok ⟨t, some source⟩
  only : ∀ {other w value}, S w.outside →
    (evaluate registry context (registry.split other) w).outcome = .ok ⟨value, some source⟩ →
    (∀ call ∈ (evaluate registry context (registry.split other) w).calls.filterMap Entry.lookup?,
      among call) →
    value = t ∨ Settled registry t

/-- A directive is evaluated alike where there is another source at the bottom of the stack. -/
theorem evaluate_inward (steady : registry.Steady context S) {outer : List String} {depth : Nat}
    {w' w : Walk σ} (beside : (inward S outer depth).Beside w' w) (raw : String) :
    (evaluate registry context (registry.split raw) w').outcome =
        (evaluate registry context (registry.split raw) w).outcome ∧
      (evaluate registry context (registry.split raw) w').calls.filterMap Entry.lookup? =
        (evaluate registry context (registry.split raw) w).calls.filterMap Entry.lookup? := by
  let through : Comparison σ := { inward S outer depth with ends := fun _ _ => False }
  have abreast : through.Abreast (evaluate registry context (registry.split raw))
      (evaluate registry context (registry.split raw)) :=
    abreast_evaluate steady Iff.rfl (fun _ _ => trivial) raw
  have beside : through.Beside w' w := ⟨beside.outside, beside.stack⟩
  rcases abreast beside with same | ⟨_, _, _, _, _, impossible, _⟩
  · refine ⟨same.outcome, ?_⟩
    rw [same.calls, List.filterMap_map]
    refine congrArg (fun look => List.filterMap look _) (funext fun e => ?_)
    obtain ⟨event, stack⟩ := e
    cases event <;> rfl
  · exact impossible.elim

/-- From such a directive a walk goes straight into the tree. -/
theorem Includes.enters {among : Call → Prop} {raw source : String}
    (steady : registry.Steady context S) (includes : Includes registry context S among raw t source)
    {s : σ} (h : S s) (maxDepth : Nat) :
    ∃ inner, At S [source] inner ∧
      (∀ v, ((Tree.text raw).walk registry context (maxDepth + 1) { outside := s }).outcome = .ok v ↔
        (expandTree registry context (maxDepth + 1) maxDepth t inner).outcome = .ok v) ∧
      ∀ e ∈ (expandTree registry context (maxDepth + 1) maxDepth t inner).calls,
        e ∈ ((Tree.text raw).walk registry context (maxDepth + 1) { outside := s }).calls := by
  have stays : At S [] (evaluate registry context (registry.split raw) { outside := s }).state :=
    (steady_evaluate steady raw).stays ⟨h, rfl⟩
  have entered : (evaluate registry context (registry.split raw) { outside := s }).state.entered?
      (some source) =
        some ((evaluate registry context (registry.split raw) { outside := s }).state.below source) := by
    simp [entered?, stays.2]
  have taken : (expandDirective registry context (maxDepth + 1) (maxDepth + 1) raw
      { outside := s }).Resumes _ _ := expandDirective_resumes (includes.gives h) entered
  have whole : (Tree.text raw).walk registry context (maxDepth + 1) =
      (expandDirective registry context (maxDepth + 1) (maxDepth + 1) raw).mapError
        (Fault.inDirective raw) := expandText_directive includes.directive
  refine ⟨(evaluate registry context (registry.split raw) { outside := s }).state.below source,
    ⟨stays.1, by rw [below_stack, stays.2]; rfl⟩, fun v => ?_, fun e member => ?_⟩
  · rw [whole, Traced.mapError_outcome_ok, taken.outcome, leave_outcome]
  · obtain ⟨ending, calls, _⟩ := leave_calls (expandTree registry context (maxDepth + 1) maxDepth t)
      (some source) ((evaluate registry context (registry.split raw) { outside := s }).state.below source)
    have trail := taken.calls
    rw [calls] at trail
    rw [whole]
    refine trail.symm ▸ List.mem_append_right _ (List.mem_append_left _ member)

/-- To resolve such a directive, with one more level of depth, is to resolve the tree. -/
theorem Includes.resolve_iff (steady : registry.Steady context S) {s s' : σ} (h : S s) (h' : S s')
    {maxDepth : Nat} {raw source : String}
    (includes : Includes registry context S
      (fun call => call ∈ ((Tree.text raw).resolve registry context (maxDepth + 1) s).calls ∧
        call ∈ (t.resolve registry context maxDepth s').calls) raw t source) (v : Tree) :
    ((Tree.text raw).resolve registry context (maxDepth + 1) s).outcome = .ok v ↔
      (t.resolve registry context maxDepth s').outcome = .ok v := by
  obtain ⟨inner, begins, entered, trail⟩ := includes.enters steady h maxDepth
  refine (entered v).trans ?_
  have paired : Paired (inward S [source] 1) registry registry context context (maxDepth + 1) maxDepth 0 :=
    paired_inward steady _ (Nat.add_comm maxDepth 1) (Nat.zero_le _)
  have beside : (inward S [source] 1).Beside inner { outside := s' } :=
    ⟨⟨begins.1, h'⟩, begins.2.trans (List.append_nil _).symm⟩
  have abreast := paired.expandTree (Nat.le_refl _) t
  constructor
  · intro done
    exact (abreast.completed beside done).outcome.symm.trans done
  intro done
  rcases abreast beside with same | cut
  · exact same.outcome.trans done
  obtain ⟨f, failed⟩ := cut.error
  exfalso
  -- The included walk fails at a directive that the loaded walk completes.
  obtain ⟨a', coercion, cause, reaches', refuses⟩ := exists_refuses failed
  obtain ⟨a, reaches, same⟩ := reaches'.beside paired (Nat.le_refl _) beside
  have there : S a.walk.outside := same.walk.outside.2
  obtain ⟨u, completed⟩ := reaches.completed done
  have alike := evaluate_inward steady same.walk a.raw
  have rooms : a'.room = a.room := same.room
  cases fits : a.room with
  | zero =>
    rw [fits] at completed
    cases completed
  | succ room =>
    rw [rooms, same.raw, fits] at refuses
    rw [fits] at completed
    rcases refuses.evaluated with refused | ⟨value, again, evaluated, member, _, _⟩
    · rw [expandDirective_of_error (alike.1.symm.trans refused)] at completed
      cases completed
    have evaluated := alike.1.symm.trans evaluated
    rw [same.walk.stack] at member
    rcases List.mem_append.mp member with itself | member
    · obtain rfl := List.mem_singleton.mp itself
      have among : ∀ call ∈ (evaluate registry context (registry.split a.raw) a.walk).calls.filterMap
          Entry.lookup?,
          call ∈ ((Tree.text raw).resolve registry context (maxDepth + 1) s).calls ∧
            call ∈ (t.resolve registry context maxDepth s').calls := by
        intro call member
        have member' := alike.2.symm ▸ member
        obtain ⟨e, called, looks⟩ := List.mem_filterMap.mp member
        obtain ⟨e', called', looks'⟩ := List.mem_filterMap.mp member'
        refine ⟨List.mem_filterMap.mpr ⟨e', trail _ (reaches'.mem_calls ?_), looks'⟩,
          List.mem_filterMap.mpr ⟨e, reaches.mem_calls ?_, looks⟩⟩
        · rw [rooms, same.raw, fits]
          exact mem_expandDirective_calls called'
        · rw [fits]
          exact mem_expandDirective_calls called
      rcases includes.only there evaluated among with rfl | settled
      · exact reaches.not_itself steady h' done there fits evaluated
      · exact reaches.unsettled settled
    · cases completed.symm.trans (expandDirective_of_mem evaluated member)

end Expansion

namespace Builtin
open Expansion
variable {σ : Type} {context : Context σ} {S : σ → Prop} {world : World}

/-- The value with a source is what the resolver gave, unless coercions accepted that. -/
theorem Fixed.given_of_evaluate (fixed : Fixed context S world) {raw source : String} {value : Tree}
    {w : Walk σ} (h : S w.outside)
    (done : (evaluate registry context ((registry : Registry σ).split raw) w).outcome =
      .ok ⟨value, some source⟩) :
    ∃ payload given, (value = given ∨ Settled (registry : Registry σ) given) ∧
      ((source = variableSource payload ∧
          given = .text ((world.environment.text? payload).getD "")) ∨
        (source = fileSource world.files payload ∧ Source.read world.files payload = .ok given ∧
          .file payload ∈ (evaluate registry context ((registry : Registry σ).split raw)
            w).calls.filterMap Walk.Entry.lookup?) ∨
        source = (SecretRef.ofText payload).source) := by
  obtain ⟨resolver, payload, given, w', found, resolves, coerced, asked⟩ := resolved_of_evaluate done
  refine ⟨payload, given, settled_of_coerce (registry.knows_split raw) coerced, ?_⟩
  rcases fixed.origin h (Registry.mem_of_resolver? found).1 resolves with
    setting | ⟨file, read, called⟩ | secret
  · exact .inl setting
  · exact .inr (.inl ⟨file, read, asked _ called⟩)
  · exact .inr (.inr secret)

theorem Fixed.includes_file (fixed : Fixed context S world) {path : String} {t : Tree}
    (read : Source.read world.files path = .ok t) (unsuffixed : Unsuffixed path) {among : Call → Prop}
    (alike : ∀ other, among (.file other) →
      world.files.canonical? other = world.files.canonical? path →
      Source.read world.files other = .ok t) :
    Includes registry context S among (fileToken ++ path) t (fileSource world.files path) where
  directive := isPlain_file unsuffixed
  gives h := fixed.evaluate_file read unsuffixed h
  only {other w value} h done asked := by
    obtain ⟨payload, given, coerced, origin⟩ := fixed.given_of_evaluate h done
    rcases origin with ⟨same, _⟩ | ⟨same, readOther, called⟩ | same
    · exact absurd same.symm (sources_apart world.files payload path "").1
    · obtain ⟨_, _, _, canonical⟩ := Source.canonical?_of_read read
      obtain ⟨_, _, _, canonicalOther⟩ := Source.canonical?_of_read readOther
      have place := canonical_of_fileSource same
      rw [canonical, canonicalOther, Option.getD_some, Option.getD_some] at place
      have again : Source.read world.files payload = .ok t :=
        alike payload (asked _ called) (by rw [canonical, canonicalOther, place])
      obtain rfl : given = t := Except.ok.inj (readOther.symm.trans again)
      exact coerced
    · exact absurd same (sources_apart world.files "" path payload).2.2

theorem Fixed.includes_env (fixed : Fixed context S world) {name value : String}
    (set : world.environment.text? name = some value) (full : value ≠ "") (unsuffixed : Unsuffixed name)
    {among : Call → Prop} :
    Includes registry context S among (envToken ++ name) (.text value) (variableSource name) where
  directive := isPlain_env unsuffixed
  gives h := fixed.evaluate_env set full unsuffixed h
  only {other w value} h done asked := by
    obtain ⟨payload, given, coerced, origin⟩ := fixed.given_of_evaluate h done
    rcases origin with ⟨same, rfl⟩ | ⟨same, _⟩ | same
    · obtain rfl := variableSource_inj same
      rwa [set] at coerced
    · exact absurd same (sources_apart world.files name payload "").1
    · exact absurd same (sources_apart world.files name "" payload).2.1

end Builtin
end Directives
