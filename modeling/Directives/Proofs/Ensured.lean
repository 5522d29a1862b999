import Directives.Proofs.Steady

/-! What computations ensure from the states of a set: of their calls, their failures and their
results. -/
namespace Directives

/-- From a state of the set a computation does not lead out of the set, and its calls, its failure and
its result are such as these. -/
structure Traced.Ensures {κ σ ε α : Type} (S : σ → Prop) (called : κ → Prop) (refused : ε → Prop)
    (given : α → Prop) (m : Traced κ σ ε α) : Prop where
  stays : ∀ {s}, S s → S (m s).state
  calls : ∀ {s}, S s → ∀ call ∈ (m s).calls, called call
  failure : ∀ {s e}, S s → (m s).outcome = .error e → refused e
  result : ∀ {s a}, S s → (m s).outcome = .ok a → given a

namespace Traced.Ensures
variable {κ σ ε α β : Type} {S : σ → Prop} {called : κ → Prop} {refused : ε → Prop}
  {given : α → Prop} {given' : β → Prop}

theorem pure {a : α} (h : given a) :
    Ensures S called refused given (pure a : Traced κ σ ε α) where
  stays h := h
  calls _ _ member := nomatch member
  failure _ failed := nomatch failed
  result _ done := by cases done; exact h

theorem fail {e : ε} (h : refused e) : Ensures S called refused given (fail e : Traced κ σ ε α) where
  stays h := h
  calls _ _ member := nomatch member
  failure _ failed := by cases failed; exact h
  result _ done := nomatch done

theorem ofExcept {outcome : Except ε α} (failure : ∀ e, outcome = .error e → refused e)
    (result : ∀ a, outcome = .ok a → given a) :
    Ensures S called refused given (ofExcept outcome : Traced κ σ ε α) := by
  cases outcome with
  | ok a => exact pure (result a rfl)
  | error e => exact fail (failure e rfl)

theorem record {call : κ} (h : called call) :
    Ensures S called refused (fun _ => True) (record call : Traced κ σ ε Unit) where
  stays h := h
  calls _ _ member := by obtain rfl := List.mem_singleton.mp member; exact h
  failure _ failed := nomatch failed
  result _ _ := trivial

theorem read {view : σ → α} (h : ∀ {s}, S s → given (view s)) :
    Ensures S called refused given (read view : Traced κ σ ε α) where
  stays h := h
  calls _ _ member := nomatch member
  failure _ failed := nomatch failed
  result inside done := by cases done; exact h inside

theorem bind {m : Traced κ σ ε α} {next : α → Traced κ σ ε β}
    (first : Ensures S called refused given m)
    (rest : ∀ a, given a → Ensures S called refused given' (next a)) :
    Ensures S called refused given' (m >>= next) where
  stays {s} h := by
    cases done : (m s).outcome with
    | error e =>
      rw [bind_of_error done]
      exact first.stays h
    | ok a =>
      rw [bind_of_ok done]
      exact (rest a (first.result h done)).stays (first.stays h)
  calls {s} h call member := by
    cases done : (m s).outcome with
    | error e =>
      rw [bind_of_error done] at member
      exact first.calls h call member
    | ok a =>
      rw [bind_of_ok done] at member
      rcases List.mem_append.mp member with member | member
      · exact first.calls h call member
      · exact (rest a (first.result h done)).calls (first.stays h) call member
  failure {s e} h failed := by
    cases done : (m s).outcome with
    | error e' =>
      rw [bind_of_error done] at failed
      cases failed
      exact first.failure h done
    | ok a =>
      rw [bind_of_ok done] at failed
      exact (rest a (first.result h done)).failure (first.stays h) failed
  result {s b} h done := by
    obtain ⟨a, doneFirst, doneRest⟩ := bind_outcome_ok.mp done
    exact (rest a (first.result h doneFirst)).result (first.stays h) doneRest

theorem mono {given' : α → Prop} {m : Traced κ σ ε α} (ensures : Ensures S called refused given m)
    (weaker : ∀ a, given a → given' a) : Ensures S called refused given' m where
  stays := ensures.stays
  calls := ensures.calls
  failure := ensures.failure
  result h done := weaker _ (ensures.result h done)

theorem mapError {ε' : Type} {refused' : ε' → Prop} {m : Traced κ σ ε α} {place : ε → ε'}
    (ensures : Ensures S called refused given m) (keeps : ∀ e, refused e → refused' (place e)) :
    Ensures S called refused' given (m.mapError place) where
  stays := ensures.stays
  calls := ensures.calls
  failure {s e} h failed := by
    cases outcome : (m s).outcome with
    | ok a =>
      rw [Traced.mapError_of_ok outcome] at failed
      cases failed
    | error e =>
      rw [mapError_of_error outcome] at failed
      cases failed
      exact keeps e (ensures.failure h outcome)
  result h done := ensures.result h (mapError_outcome_ok.mp done)

/-- Trees inherit what their texts ensure, if it takes no account of where a failure happened. -/
theorem compositional {refused : Fault → Prop}
    (blind : ∀ {f f' : Fault}, f.bare = f'.bare → refused f → refused f') :
    Tree.Compositional
      (fun {α} (m : Traced κ σ Fault α) => Ensures S called refused (fun _ => True) m) where
  pure _ := pure trivial
  bind first rest := first.bind fun a _ => rest a
  mapError keeps ensures := ensures.mapError fun f => blind (keeps f).symm

end Traced.Ensures

namespace Traced
variable {κ σ ε α : Type}

/-- Where the computation succeeds, its result has the property. -/
abbrev Yields (given : α → Prop) (m : Traced κ σ ε α) : Prop :=
  Ensures (fun _ => True) (fun _ => True) (fun _ => True) given m

theorem yields_of_outcome {given : α → Prop} {m : Traced κ σ ε α}
    (result : ∀ {s a}, (m s).outcome = .ok a → given a) : Yields given m :=
  ⟨id, fun _ _ _ => trivial, fun _ _ => trivial, fun _ => result⟩

theorem yields_anything (m : Traced κ σ ε α) : Yields (fun _ => True) m :=
  yields_of_outcome fun _ => trivial

end Traced

namespace Walk
variable {σ α : Type} {S : σ → Prop} {called : Entry → Prop} {refused : Fault → Prop}
  {given : α → Prop} {stack : List String}

theorem ensures_note {event : Event} (h : called ⟨event, stack⟩) :
    Traced.Ensures (At S stack) called refused (fun _ => True) (note event : Action σ Unit) where
  stays h := h
  calls inside e member := by
    obtain rfl := List.mem_singleton.mp member
    exact inside.2.symm ▸ h
  failure _ failed := nomatch failed
  result _ _ := trivial

theorem ensures_lift {m : Run σ Fault α} (h : ∀ call, called ⟨.lookup call, stack⟩)
    (ensures : Traced.Ensures S (fun _ => True) refused given m) :
    Traced.Ensures (At S stack) called refused given (lift m) where
  stays inside := ⟨ensures.stays inside.1, inside.2⟩
  calls inside e member := by
    obtain ⟨call, _, rfl⟩ := List.mem_map.mp member
    exact inside.2.symm ▸ h call
  failure inside := ensures.failure inside.1
  result inside := ensures.result inside.1

theorem ensures_complete {inner : Action σ α} (h : called ⟨.expanded, stack⟩)
    (ensures : Traced.Ensures (At S stack) called refused given inner) :
    Traced.Ensures (At S stack) called refused given (complete inner) :=
  ensures.bind fun _ got => (ensures_note h).bind fun _ _ => .pure got

/-- What an action ensures where a new source is on the stack, it ensures as it takes up a value from
there. -/
theorem ensures_guarded {source : String} {inner : Action σ α}
    (circular : source ∈ stack → refused (.circularReference (stack ++ [source])))
    (ensures : source ∉ stack → Traced.Ensures (At S (stack ++ [source])) called refused given inner) :
    Traced.Ensures (At S stack) called refused given (guarded source inner) := by
  by_cases again : source ∈ stack
  · have refusal {w : Walk σ} (inside : At S stack w) : guarded source inner w =
        ⟨.error (.circularReference (stack ++ [source])), w, []⟩ := by
      rw [guarded_of_mem (inside.2.symm ▸ again), inside.2]
    constructor
    · intro w inside
      rw [refusal inside]
      exact inside
    · intro w inside e member
      rw [refusal inside] at member
      cases member
    · intro w f inside failed
      rw [refusal inside] at failed
      cases failed
      exact circular again
    · intro w a inside done
      rw [refusal inside] at done
      cases done
  · have below {w : Walk σ} (inside : At S stack w) : At S (stack ++ [source]) (w.below source) :=
      ⟨inside.1, congrArg (· ++ [source]) inside.2⟩
    have entered {w : Walk σ} (inside : At S stack w) : guarded source inner w =
        ⟨(inner (w.below source)).outcome, (inner (w.below source)).state.above,
          (inner (w.below source)).calls⟩ :=
      guarded_of_not_mem (inside.2.symm ▸ again)
    constructor
    · intro w inside
      obtain ⟨kept, grown⟩ := (ensures again).stays (below inside)
      rw [entered inside]
      exact ⟨kept, by rw [above_stack, grown, List.dropLast_concat]⟩
    · intro w inside
      rw [entered inside]
      exact (ensures again).calls (below inside)
    · intro w f inside
      rw [entered inside]
      exact (ensures again).failure (below inside)
    · intro w a inside
      rw [entered inside]
      exact (ensures again).result (below inside)

end Walk
end Directives
