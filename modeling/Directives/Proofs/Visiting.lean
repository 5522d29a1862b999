import Directives.Expansion

/-! What a visit to a tree inherits from what is done at its texts, and a walk from its resolvers and
coercions. -/
namespace Directives

namespace Registry
variable {σ : Type} {registry : Registry σ} {names names' : List String}

/-- There is a coercion under each of the names. -/
def Knows (registry : Registry σ) (names : List String) : Prop :=
  ∀ name ∈ names, ∃ coercion ∈ registry.coercions,
    coercion.name = name ∧ registry.coercion? name = some coercion

theorem knows_split (registry : Registry σ) (text : String) :
    registry.Knows (registry.split text).coercions := fun _ => coercion?_of_split

theorem Knows.before (known : registry.Knows (names ++ names')) : registry.Knows names :=
  fun name member => known name (List.mem_append_left _ member)

theorem Knows.after (known : registry.Knows (names ++ names')) : registry.Knows names' :=
  fun name member => known name (List.mem_append_right _ member)

end Registry

namespace Tree
variable {κ σ : Type}

/-- A property that computations inherit from their parts, and that notes on where a failure happened do
not disturb. -/
structure Compositional (P : {α : Type} → Traced κ σ Fault α → Prop) : Prop where
  pure : ∀ {α : Type} (a : α), P (pure a)
  bind : ∀ {α β : Type} {m : Traced κ σ Fault α} {next : α → Traced κ σ Fault β},
    P m → (∀ a, P (next a)) → P (m >>= next)
  mapError : ∀ {α : Type} {m : Traced κ σ Fault α} {place : Fault → Fault},
    (∀ f, (place f).bare = f.bare) → P m → P (m.mapError place)

/-- What holds of all calls of the parts holds of all calls. -/
theorem compositional_calls (called : κ → Prop) :
    Compositional (fun {α} (m : Traced κ σ Fault α) => ∀ s, ∀ call ∈ (m s).calls, called call) where
  pure _ _ _ member := nomatch member
  mapError _ parts := parts
  bind {_ _ m next} first rest s call member := by
    cases outcome : (m s).outcome with
    | error f =>
      rw [Traced.bind_of_error outcome] at member
      exact first s call member
    | ok a =>
      rw [Traced.bind_of_ok outcome] at member
      rcases List.mem_append.mp member with member | member
      · exact first s call member
      · exact rest a _ call member

section
variable {P : {α : Type} → Traced κ σ Fault α → Prop} {leaf : String → Traced κ σ Fault Tree}

mutual

theorem Compositional.visit (parts : Compositional P) (texts : ∀ raw, P (leaf raw)) :
    ∀ t : Tree, P (t.visit leaf)
  | .text raw => texts raw
  | .sequence items => parts.bind (parts.visitItems texts 0 items) fun _ => parts.pure _
  | .mapping fields => parts.bind (parts.visitFields texts fields) fun _ => parts.pure _
  | .null | .bool _ | .integer _ | .float _ | .duration _ => parts.pure _
termination_by structural t => t

theorem Compositional.visitItems (parts : Compositional P) (texts : ∀ raw, P (leaf raw))
    (position : Nat) : ∀ items : List Tree, P (visitItems leaf position items)
  | [] => parts.pure _
  | item :: rest =>
    parts.bind (parts.mapError (Fault.bare_under _) (parts.visit texts item)) fun _ =>
      parts.bind (parts.visitItems texts (position + 1) rest) fun _ => parts.pure _
termination_by structural items => items

theorem Compositional.visitFields (parts : Compositional P) (texts : ∀ raw, P (leaf raw)) :
    ∀ fields : List (String × Tree), P (visitFields leaf fields)
  | [] => parts.pure _
  | (_, value) :: rest =>
    parts.bind (parts.mapError (Fault.bare_under _) (parts.visit texts value)) fun _ =>
      parts.bind (parts.visitFields texts rest) fun _ => parts.pure _
termination_by structural fields => fields

end

end

section
open Walk Expansion
variable {P : {α : Type} → Action σ α → Prop} {registry : Registry σ} {context : Context σ}

/-- A walk inherits what holds of its directives. -/
theorem Compositional.expand (parts : Compositional P) {expand : String → Action σ Tree}
    (directives : ∀ raw, ¬ isPlain registry raw = true → P (expand raw)) (t : Tree) :
    P (t.visit (expandText registry expand)) := by
  refine parts.visit (fun raw => ?_) t
  by_cases plain : isPlain registry raw = true
  · rw [expandText_plain plain]
    exact parts.pure _
  · rw [expandText_directive plain]
    exact parts.mapError (Fault.bare_inDirective raw) (directives raw plain)

theorem calls_note_lift {called : Entry → Prop} {event : Event} {α : Type}
    (noted : ∀ stack, called ⟨event, stack⟩) (looked : ∀ call stack, called ⟨.lookup call, stack⟩)
    (m : Run σ Fault α) (w : Walk σ) : ∀ e ∈ ((note event >>= fun _ => lift m) w).calls, called e := by
  intro e member
  rw [note_bind] at member
  rcases List.mem_cons.mp member with rfl | member
  · exact noted _
  · obtain ⟨call, _, rfl⟩ := List.mem_map.mp member
    exact looked call _

/-- Coercions in a row inherit what holds of each coercion and its note. -/
theorem Compositional.coerce (parts : Compositional P)
    (applied : ∀ coercion ∈ registry.coercions, ∀ t,
      P (note (.coercion coercion.name) >>= fun _ => lift (coercion.apply t)))
    {names : List String} (known : registry.Knows names) (value : Tree) :
    P (coerce registry names value) := by
  induction names generalizing value with
  | nil => exact parts.pure value
  | cons name rest ih =>
    obtain ⟨coercion, member, rfl, found⟩ := known name List.mem_cons_self
    have placed : P (note (.coercion coercion.name) >>= fun _ =>
        (lift (coercion.apply value)).mapError (Fault.inCoercion coercion.name)) := by
      rw [← note_mapError]
      exact parts.mapError (Fault.bare_inCoercion coercion.name) (applied coercion member value)
    rw [Expansion.coerce, found]
    dsimp only
    rw [← bind_assoc]
    exact parts.bind placed fun value => ih (fun name member =>
      known name (List.mem_cons_of_mem _ member)) value

/-- A directive that is evaluated inherits what holds of the token's check, and of each resolver and
each coercion and their notes. -/
theorem Compositional.evaluate (parts : Compositional P) (checked : P (lift context.check))
    (resolved : ∀ resolver ∈ registry.resolvers, ∀ payload,
      P (note (.resolver resolver.token payload) >>= fun _ => lift (resolver.resolve context payload)))
    (applied : ∀ coercion ∈ registry.coercions, ∀ t,
      P (note (.coercion coercion.name) >>= fun _ => lift (coercion.apply t)))
    (raw : String) : P (evaluate registry context (registry.split raw)) := by
  have fetched : P (fetch context (registry.split raw).stem
      (registry.resolver? (registry.split raw).stem)) := by
    cases found : registry.resolver? (registry.split raw).stem with
    | none => exact parts.pure _
    | some pair =>
      have member : pair.1 ∈ registry.resolvers := (Registry.mem_of_resolver? found).1
      exact parts.bind checked fun _ => resolved pair.1 member pair.2
  exact parts.bind fetched fun answer =>
    parts.bind (parts.coerce applied (registry.knows_split raw) answer.value) fun _ =>
      parts.pure _

end

mutual

/-- The texts in a tree, from left to right; keys do not count. -/
def texts : Tree → List String
  | .text raw => [raw]
  | .sequence items => itemTexts items
  | .mapping fields => fieldTexts fields
  | _ => []
termination_by structural t => t

def itemTexts : List Tree → List String
  | [] => []
  | item :: rest => texts item ++ itemTexts rest
termination_by structural items => items

def fieldTexts : List (String × Tree) → List String
  | [] => []
  | (_, value) :: rest => texts value ++ fieldTexts rest
termination_by structural fields => fields

end

section
variable {leaf : String → Traced κ σ Fault Tree}

mutual

theorem visit_eq_pure : ∀ t : Tree, (∀ raw ∈ t.texts, leaf raw = pure (.text raw)) →
    t.visit leaf = pure t
  | .text raw, kept => kept raw (by simp [texts])
  | .sequence items, kept => by
    rw [visit, visitItems_eq_pure items 0 (by simpa only [texts] using kept), pure_bind]
  | .mapping fields, kept => by
    rw [visit, visitFields_eq_pure fields (by simpa only [texts] using kept), pure_bind]
  | .null, _ | .bool _, _ | .integer _, _ | .float _, _ | .duration _, _ => rfl
termination_by structural t => t

theorem visitItems_eq_pure : ∀ (items : List Tree) (position : Nat),
    (∀ raw ∈ itemTexts items, leaf raw = pure (.text raw)) →
    visitItems leaf position items = pure items
  | [], _, _ => rfl
  | item :: rest, position, kept => by
    simp only [itemTexts, List.mem_append] at kept
    rw [visitItems, visit_eq_pure item fun raw h => kept raw (.inl h), Traced.mapError_pure,
      pure_bind, visitItems_eq_pure rest (position + 1) fun raw h => kept raw (.inr h), pure_bind]
termination_by structural items => items

theorem visitFields_eq_pure : ∀ fields : List (String × Tree),
    (∀ raw ∈ fieldTexts fields, leaf raw = pure (.text raw)) →
    visitFields leaf fields = pure fields
  | [], _ => rfl
  | (key, value) :: rest, kept => by
    simp only [fieldTexts, List.mem_append] at kept
    rw [visitFields, visit_eq_pure value fun raw h => kept raw (.inl h), Traced.mapError_pure,
      pure_bind, visitFields_eq_pure rest fun raw h => kept raw (.inr h), pure_bind]
termination_by structural fields => fields

end

variable {p : String → Prop}

mutual

/-- Every text in a visited tree was left there by a visit to a text. -/
theorem texts_visit (left : ∀ raw s v, (leaf raw s).outcome = .ok v → ∀ text ∈ v.texts, p text) :
    ∀ (t : Tree) (s : σ) (v : Tree), (t.visit leaf s).outcome = .ok v → ∀ text ∈ v.texts, p text
  | .text raw, s, v, done => left raw s v done
  | .sequence items, s, v, done => by
    obtain ⟨items', visited, rest⟩ := Traced.bind_outcome_ok.mp done
    cases rest
    exact texts_visitItems left items 0 s items' visited
  | .mapping fields, s, v, done => by
    obtain ⟨fields', visited, rest⟩ := Traced.bind_outcome_ok.mp done
    cases rest
    exact texts_visitFields left fields s fields' visited
  | .null, s, v, done | .bool _, s, v, done | .integer _, s, v, done | .float _, s, v, done
  | .duration _, s, v, done => by
    cases done
    simp [texts]
termination_by structural t => t

theorem texts_visitItems
    (left : ∀ raw s v, (leaf raw s).outcome = .ok v → ∀ text ∈ v.texts, p text) :
    ∀ (items : List Tree) (position : Nat) (s : σ) (items' : List Tree),
      (visitItems leaf position items s).outcome = .ok items' → ∀ text ∈ itemTexts items', p text
  | [], _, _, _, done => by
    cases done
    simp [itemTexts]
  | item :: rest, position, s, _, done => by
    obtain ⟨item', visited, done⟩ := Traced.bind_outcome_ok.mp done
    obtain ⟨rest', visitedRest, done⟩ := Traced.bind_outcome_ok.mp done
    cases done
    intro text member
    simp only [itemTexts, List.mem_append] at member
    rcases member with member | member
    · exact texts_visit left item s item' (Traced.mapError_outcome_ok.mp visited) text member
    · exact texts_visitItems left rest (position + 1) _ rest' visitedRest text member
termination_by structural items => items

theorem texts_visitFields
    (left : ∀ raw s v, (leaf raw s).outcome = .ok v → ∀ text ∈ v.texts, p text) :
    ∀ (fields : List (String × Tree)) (s : σ) (fields' : List (String × Tree)),
      (visitFields leaf fields s).outcome = .ok fields' → ∀ text ∈ fieldTexts fields', p text
  | [], _, _, done => by
    cases done
    simp [fieldTexts]
  | (key, value) :: rest, s, _, done => by
    obtain ⟨value', visited, done⟩ := Traced.bind_outcome_ok.mp done
    obtain ⟨rest', visitedRest, done⟩ := Traced.bind_outcome_ok.mp done
    cases done
    intro text member
    simp only [fieldTexts, List.mem_append] at member
    rcases member with member | member
    · exact texts_visit left value s value' (Traced.mapError_outcome_ok.mp visited) text member
    · exact texts_visitFields left rest _ rest' visitedRest text member
termination_by structural fields => fields

end

end
end Tree
end Directives
