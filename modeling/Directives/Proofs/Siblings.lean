import Mathlib.Control.Monad.Basic
import Mathlib.Data.List.Forall2
import Directives.Proofs.Steady
import Directives.Tree.Equality

/-! Siblings do not interfere. In surroundings that hold still, a container is resolved as if each of
its children were resolved alone: the outcomes are put in the place of the children, the trails follow
one another, and the first child that fails decides the failure and ends the walk. -/
namespace Directives

namespace Traced.Steady
variable {ι κ σ ε α : Type} {S : σ → Prop} {f : ι → Traced κ σ ε α} {s s' : σ}

theorem mapM_ok (steady : ∀ i, Steady S (f i)) (h : S s) (h' : S s') {is : List ι} {as : List α}
    (each : List.Forall₂ (fun i a => (f i s').outcome = .ok a) is as) :
    (is.mapM f s).outcome = .ok as ∧ (is.mapM f s).calls = is.flatMap fun i => (f i s').calls := by
  induction each generalizing s with
  | nil => exact ⟨rfl, rfl⟩
  | @cons i a is as done _ ih =>
    obtain ⟨same, called⟩ := (steady i).agree h h'
    obtain ⟨rest, restCalled⟩ := ih ((steady i).stays h)
    rw [List.mapM_cons, bind_of_ok (same.trans done), bind_of_ok rest]
    exact ⟨rfl, by simp [called, restCalled, pure_apply]⟩

theorem mapM_error (steady : ∀ i, Steady S (f i)) (h : S s) (h' : S s') {before : List ι} {i : ι}
    (after : List ι) {e : ε} (done : ∀ i ∈ before, ∃ a, (f i s').outcome = .ok a)
    (failed : (f i s').outcome = .error e) :
    ((before ++ i :: after).mapM f s).outcome = .error e ∧
      ((before ++ i :: after).mapM f s).calls =
        (before ++ [i]).flatMap fun i => (f i s').calls := by
  induction before generalizing s with
  | nil =>
    obtain ⟨same, called⟩ := (steady i).agree h h'
    rw [List.nil_append, List.mapM_cons, bind_of_error (same.trans failed)]
    exact ⟨rfl, by simpa using called⟩
  | cons first before ih =>
    obtain ⟨a, doneFirst⟩ := done first List.mem_cons_self
    obtain ⟨same, called⟩ := (steady first).agree h h'
    obtain ⟨rest, restCalled⟩ := ih ((steady first).stays h) fun i member =>
      done i (List.mem_cons_of_mem _ member)
    rw [List.cons_append, List.mapM_cons, bind_of_ok (same.trans doneFirst), bind_of_error rest]
    exact ⟨rfl, by simp only [called, restCalled, List.cons_append, List.flatMap_cons]⟩

end Traced.Steady

namespace Tree
variable {κ σ : Type} {leaf : String → Traced κ σ Fault Tree}

def visitField (leaf : String → Traced κ σ Fault Tree) (field : String × Tree) :
    Traced κ σ Fault (String × Tree) := do
  let value ← (field.2.visit leaf).mapError (Fault.under (.key field.1))
  return (field.1, value)

def visitItem (leaf : String → Traced κ σ Fault Tree) (item : Tree × Nat) : Traced κ σ Fault Tree :=
  (item.1.visit leaf).mapError (Fault.under (.index item.2))

theorem visitFields_eq_mapM (fields : List (String × Tree)) :
    visitFields leaf fields = fields.mapM (visitField leaf) := by
  induction fields with
  | nil => rfl
  | cons field rest ih =>
    rw [visitFields, ih, List.mapM_cons, visitField, bind_assoc]
    simp only [pure_bind]

theorem visitItems_eq_mapM (items : List Tree) (position : Nat) :
    visitItems leaf position items = (items.zipIdx position).mapM (visitItem leaf) := by
  induction items generalizing position with
  | nil => rfl
  | cons item rest ih => rw [visitItems, ih, List.zipIdx_cons, List.mapM_cons, visitItem]

theorem visitField_ok {key : String} {t v : Tree} {s : σ} (done : (t.visit leaf s).outcome = .ok v) :
    (visitField leaf (key, t) s).outcome = .ok (key, v) := by
  rw [visitField, Traced.bind_of_ok (Traced.mapError_outcome_ok.mpr done)]
  rfl

theorem visitField_error {key : String} {t : Tree} {s : σ} {f : Fault}
    (failed : (t.visit leaf s).outcome = .error f) :
    (visitField leaf (key, t) s).outcome = .error (f.under (.key key)) := by
  rw [visitField, Traced.bind_of_error (Traced.mapError_of_error failed)]

theorem visitField_calls (field : String × Tree) (s : σ) :
    (visitField leaf field s).calls = (field.2.visit leaf s).calls := by
  cases h : (field.2.visit leaf s).outcome with
  | ok v =>
    rw [visitField, Traced.bind_of_ok (Traced.mapError_outcome_ok.mpr h)]
    exact List.append_nil _
  | error f =>
    rw [visitField, Traced.bind_of_error (Traced.mapError_of_error h)]
    rfl

end Tree

theorem flatMap_zipIdx {α β : Type} (as : List α) (position : Nat) (f : α → List β) :
    ((as.zipIdx position).flatMap fun a => f a.1) = as.flatMap f := by
  rw [← List.flatMap_map, List.zipIdx_map_fst]

namespace Traced.Steady
variable {κ σ : Type} {S : σ → Prop} {leaf : String → Traced κ σ Fault Tree} {s s' : σ}

theorem visitMapping_ok (steady : ∀ t : Tree, Steady S (t.visit leaf)) (h : S s) (h' : S s')
    {fields values : List (String × Tree)}
    (each : List.Forall₂ (fun field value =>
      value.1 = field.1 ∧ (field.2.visit leaf s').outcome = .ok value.2) fields values) :
    ((Tree.mapping fields).visit leaf s).outcome = .ok (.mapping values) ∧
      ((Tree.mapping fields).visit leaf s).calls =
        fields.flatMap fun field => (field.2.visit leaf s').calls := by
  have parts (field : String × Tree) : Steady S (Tree.visitField leaf field) :=
    ((steady field.2).mapError _).bind fun _ => .pure _
  have placed : List.Forall₂ (fun field value =>
      (Tree.visitField leaf field s').outcome = .ok value) fields values :=
    each.imp fun field value done => by
      rw [← Prod.eta value, done.1]
      exact Tree.visitField_ok done.2
  obtain ⟨done, called⟩ := mapM_ok parts h h' placed
  rw [Tree.visit, Tree.visitFields_eq_mapM, bind_of_ok done, called]
  simp only [Tree.visitField_calls]
  exact ⟨rfl, List.append_nil _⟩

theorem visitMapping_error (steady : ∀ t : Tree, Steady S (t.visit leaf)) (h : S s) (h' : S s')
    {before after : List (String × Tree)} {key : String} {t : Tree} {f : Fault}
    (done : ∀ field ∈ before, ∃ v, (field.2.visit leaf s').outcome = .ok v)
    (failed : (t.visit leaf s').outcome = .error f) :
    ((Tree.mapping (before ++ (key, t) :: after)).visit leaf s).outcome =
        .error (f.under (.key key)) ∧
      ((Tree.mapping (before ++ (key, t) :: after)).visit leaf s).calls =
        (before ++ [(key, t)]).flatMap fun field => (field.2.visit leaf s').calls := by
  have parts (field : String × Tree) : Steady S (Tree.visitField leaf field) :=
    ((steady field.2).mapError _).bind fun _ => .pure _
  have placed : ∀ field ∈ before, ∃ a, (Tree.visitField leaf field s').outcome = .ok a := by
    intro field member
    obtain ⟨v, done⟩ := done field member
    exact ⟨(field.1, v), Tree.visitField_ok done⟩
  have refused : (Tree.visitField leaf (key, t) s').outcome = .error (f.under (.key key)) :=
    Tree.visitField_error failed
  obtain ⟨ended, called⟩ := mapM_error parts h h' after placed refused
  rw [Tree.visit, Tree.visitFields_eq_mapM, bind_of_error ended, called]
  simp only [Tree.visitField_calls, and_self]

theorem visitSequence_ok (steady : ∀ t : Tree, Steady S (t.visit leaf)) (h : S s) (h' : S s')
    {items values : List Tree}
    (each : List.Forall₂ (fun item value => (item.visit leaf s').outcome = .ok value) items values) :
    ((Tree.sequence items).visit leaf s).outcome = .ok (.sequence values) ∧
      ((Tree.sequence items).visit leaf s).calls =
        items.flatMap fun item => (item.visit leaf s').calls := by
  have parts (item : Tree × Nat) : Steady S (Tree.visitItem leaf item) :=
    (steady item.1).mapError _
  have placed : List.Forall₂ (fun item value => (Tree.visitItem leaf item s').outcome = .ok value)
      (items.zipIdx 0) values := by
    rw [← List.zipIdx_map_fst 0 items, List.forall₂_map_left_iff] at each
    exact each.imp fun item value => mapError_outcome_ok.mpr
  obtain ⟨done, called⟩ := mapM_ok parts h h' placed
  rw [Tree.visit, Tree.visitItems_eq_mapM, bind_of_ok done, called]
  exact ⟨rfl, (List.append_nil _).trans (flatMap_zipIdx items 0 fun item => (item.visit leaf s').calls)⟩

theorem visitSequence_error (steady : ∀ t : Tree, Steady S (t.visit leaf)) (h : S s) (h' : S s')
    {before after : List Tree} {t : Tree} {f : Fault}
    (done : ∀ item ∈ before, ∃ v, (item.visit leaf s').outcome = .ok v)
    (failed : (t.visit leaf s').outcome = .error f) :
    ((Tree.sequence (before ++ t :: after)).visit leaf s).outcome =
        .error (f.under (.index before.length)) ∧
      ((Tree.sequence (before ++ t :: after)).visit leaf s).calls =
        (before ++ [t]).flatMap fun item => (item.visit leaf s').calls := by
  have parts (item : Tree × Nat) : Steady S (Tree.visitItem leaf item) :=
    (steady item.1).mapError _
  have placed : ∀ item ∈ before.zipIdx 0, ∃ v, (Tree.visitItem leaf item s').outcome = .ok v :=
    fun item member => (done item.1 (List.fst_mem_of_mem_zipIdx member)).imp fun _ =>
      mapError_outcome_ok.mpr
  have refused : (Tree.visitItem leaf (t, before.length) s').outcome =
      .error (f.under (.index before.length)) := mapError_of_error failed
  obtain ⟨ended, called⟩ := mapM_error parts h h' (after.zipIdx (before.length + 1)) placed refused
  have positions : (before ++ t :: after).zipIdx 0 =
      before.zipIdx 0 ++ (t, before.length) :: after.zipIdx (before.length + 1) := by
    rw [List.zipIdx_append, List.zipIdx_cons, Nat.zero_add]
  rw [Tree.visit, Tree.visitItems_eq_mapM, positions, bind_of_error ended, called]
  refine ⟨rfl, ?_⟩
  rw [List.flatMap_append, List.flatMap_append]
  exact congrArg (· ++ _) (flatMap_zipIdx before 0 fun item => (item.visit leaf s').calls)

end Traced.Steady

namespace Expansion
open Walk
variable {σ : Type} {registry : Registry σ} {context : Context σ} {S : σ → Prop}

/-- A container is resolved as if each child were resolved alone, in a walk of its own that may start
from another state of the set. If all children succeed, their values stand under the same keys in the
same order, or in the same positions. If not, the first failure is that of the whole, with its key or
position in front, and nothing is called for a later child. In both cases the trail is that of the
separate walks, one after the other. Keys are never looked at; scalars and plain texts stay. -/
theorem siblings_apart (steady : registry.Steady context S) (maxDepth : Nat) {s s' : σ}
    (h : S s) (h' : S s') :
    let whole (t : Tree) := t.walk registry context maxDepth { outside := s }
    let alone (t : Tree) := t.walk registry context maxDepth { outside := s' }
    (∀ t, (whole t).outcome = (alone t).outcome ∧ (whole t).calls = (alone t).calls) ∧
    (∀ fields values : List (String × Tree), List.Forall₂ (fun field value =>
        value.1 = field.1 ∧ (alone field.2).outcome = .ok value.2) fields values →
      (whole (.mapping fields)).outcome = .ok (.mapping values) ∧
      (whole (.mapping fields)).calls = fields.flatMap fun field => (alone field.2).calls) ∧
    (∀ before key t after f, (∀ field ∈ before, ∃ v, (alone field.2).outcome = .ok v) →
      (alone t).outcome = .error f →
      (whole (.mapping (before ++ (key, t) :: after))).outcome = .error (f.under (.key key)) ∧
      (whole (.mapping (before ++ (key, t) :: after))).calls =
        (before ++ [(key, t)]).flatMap fun field => (alone field.2).calls) ∧
    (∀ items values : List Tree,
      List.Forall₂ (fun item value => (alone item).outcome = .ok value) items values →
      (whole (.sequence items)).outcome = .ok (.sequence values) ∧
      (whole (.sequence items)).calls = items.flatMap fun item => (alone item).calls) ∧
    (∀ before t after f, (∀ item ∈ before, ∃ v, (alone item).outcome = .ok v) →
      (alone t).outcome = .error f →
      (whole (.sequence (before ++ t :: after))).outcome =
        .error (f.under (.index before.length)) ∧
      (whole (.sequence (before ++ t :: after))).calls =
        (before ++ [t]).flatMap fun item => (alone item).calls) ∧
    (∀ t : Tree, t.isOpaque = true → whole t = ⟨.ok t, { outside := s }, []⟩) ∧
    (∀ raw, isPlain registry raw = true →
      whole (.text raw) = ⟨.ok (.text raw), { outside := s }, []⟩) := by
  have walks (t : Tree) : Traced.Steady (At S []) (t.walk registry context maxDepth) :=
    steady_expandTree steady maxDepth maxDepth t
  have here : At S [] { outside := s } := ⟨h, rfl⟩
  have there : At S [] { outside := s' } := ⟨h', rfl⟩
  refine ⟨fun t => (walks t).agree here there, fun _ _ => Traced.Steady.visitMapping_ok walks here there,
    fun _ _ _ _ _ => Traced.Steady.visitMapping_error walks here there,
    fun _ _ => Traced.Steady.visitSequence_ok walks here there,
    fun _ _ _ _ => Traced.Steady.visitSequence_error walks here there, fun t scalar => ?_,
    fun raw plain => ?_⟩
  · cases t <;> first | rfl | cases scalar
  · exact congrFun (expandText_plain plain) _

theorem siblings_apart_variables :
    let world : World := { environment := ⟨[Text.toUtf8 "FOO=5"]⟩ }
    let context := Context.ofWorlds none
    let alone (t : Tree) := t.walk Builtin.registry context 32 { outside := world }
    let first : Tree := .text "ENV->FOO::atoi"
    let second : Tree := .text "ENV->BAR"
    Builtin.registry.Steady context (· = world) ∧
      (alone first).outcome = .ok (.integer 5) ∧
      (alone second).outcome = .error ((Fault.missingVariable "BAR").inDirective "ENV->BAR") ∧
      (alone (.mapping [("a", first), ("b", second), ("c", first)])).calls =
        (alone first).calls ++ (alone second).calls := by
  intro world context alone first second
  have steady : Builtin.registry.Steady context (· = world) := Builtin.registry_steady_world world
  have done : (alone first).outcome = .ok (.integer 5) := by decide +kernel
  have failed : (alone second).outcome =
      .error ((Fault.missingVariable "BAR").inDirective "ENV->BAR") := by decide +kernel
  have apart := (siblings_apart steady 32 rfl rfl).2.2.1 [("a", first)] "b" second [("c", first)] _
    (by simpa using ⟨_, done⟩) failed
  exact ⟨steady, done, failed, by simpa using apart.2⟩

end Expansion
end Directives
