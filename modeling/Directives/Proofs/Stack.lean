import Mathlib.Data.List.Nodup
import Mathlib.Data.List.ReduceOption
import Directives.Proofs.Blame

/-! The discipline of the stack. At every point of a walk the stack holds the sources of the expansions
around that point, each once, and every part of a walk leaves the stack as it found it. -/
namespace Directives

namespace Walk
variable {σ α β : Type} {frames : List (Option String)} {stack : List String}

/-- The expansions around what follows an event, outermost first. An expansion is given by its source,
if it has one. -/
def Event.around (frames : List (Option String)) : Event → List (Option String)
  | .expand source => frames ++ [source]
  | .expanded => frames.dropLast
  | .directive .. | .resolver .. | .coercion .. | .lookup _ => frames

/-- The expansions around what follows a part of a trail. -/
def enclosing (frames : List (Option String)) (trail : List Entry) : List (Option String) :=
  trail.foldl (fun frames e => e.event.around frames) frames

/-- A stack holds the sources of these expansions, and no source twice. -/
structure Holds (frames : List (Option String)) (stack : List String) : Prop where
  sources : stack = frames.reduceOption
  nodup : stack.Nodup

/-- An entry is in place inside these expansions: the stack holds their sources, and a directive is as
deep as they are many. -/
structure Entry.InPlace (frames : List (Option String)) (e : Entry) : Prop where
  holds : Holds frames e.stack
  depth : ∀ {raw depth}, e.event = .directive raw depth → depth = frames.length

/-- Every entry of a trail is in place. -/
def Orderly : List (Option String) → List Entry → Prop
  | _, [] => True
  | frames, e :: rest => e.InPlace frames ∧ Orderly (e.event.around frames) rest

theorem Holds.length_le (holds : Holds frames stack) : stack.length ≤ frames.length :=
  holds.sources ▸ frames.reduceOption_length_le

theorem Holds.inside_none (holds : Holds frames stack) : Holds (frames ++ [none]) stack where
  sources := by rw [List.reduceOption_append, holds.sources]; exact (List.append_nil _).symm
  nodup := holds.nodup

theorem Holds.inside_some {source : String} (holds : Holds frames stack) (new : source ∉ stack) :
    Holds (frames ++ [some source]) (stack ++ [source]) where
  sources := by rw [List.reduceOption_append, holds.sources]; rfl
  nodup := List.nodup_append_comm.mp (List.nodup_cons.mpr ⟨new, holds.nodup⟩)

theorem enclosing_append (before after : List Entry) :
    enclosing frames (before ++ after) = enclosing (enclosing frames before) after :=
  List.foldl_append

theorem orderly_append {before after : List Entry} :
    Orderly frames (before ++ after) ↔
      Orderly frames before ∧ Orderly (enclosing frames before) after := by
  induction before generalizing frames with
  | nil => exact (iff_of_eq (true_and _)).symm
  | cons e rest ih => exact (and_congr_right fun _ => ih).trans and_assoc.symm

theorem Orderly.inPlace {before after : List Entry} {e : Entry}
    (orderly : Orderly frames (before ++ e :: after)) : e.InPlace (enclosing frames before) :=
  (orderly_append.mp orderly).2.1

/-- An action leaves the stack as it found it, whether it succeeds or fails. -/
structure Restores (m : Action σ α) : Prop where
  stack : ∀ w, (m w).state.stack = w.stack

/-- Inside these expansions an action also leaves an orderly trail, and when it succeeds it has ended
every expansion that it began. -/
structure Disciplined (frames : List (Option String)) (m : Action σ α) : Prop extends Restores m where
  trail : ∀ {w}, Holds frames w.stack → Orderly frames (m w).calls
  closed : ∀ {w a}, (m w).outcome = .ok a → enclosing frames (m w).calls = frames

namespace Restores

theorem pure (a : α) : Restores (pure a : Action σ α) := ⟨fun _ => rfl⟩

theorem fail (f : Fault) : Restores (Traced.fail f : Action σ α) := ⟨fun _ => rfl⟩

theorem note (event : Event) : Restores (note event : Action σ Unit) := ⟨fun _ => rfl⟩

theorem lift (m : Run σ Fault α) : Restores (lift m) := ⟨fun _ => rfl⟩

theorem bind {m : Action σ α} {next : α → Action σ β} (first : Restores m)
    (rest : ∀ a, Restores (next a)) : Restores (m >>= next) := by
  refine ⟨fun w => ?_⟩
  cases outcome : (m w).outcome with
  | error f =>
    rw [Traced.bind_of_error outcome]
    exact first.stack w
  | ok a =>
    rw [Traced.bind_of_ok outcome]
    exact ((rest a).stack _).trans (first.stack w)

theorem mapError {m : Action σ α} (place : Fault → Fault) (restores : Restores m) :
    Restores (m.mapError place) := ⟨restores.stack⟩

theorem compositional : Tree.Compositional (fun {α} (m : Action σ α) => Restores m) where
  pure := pure
  bind := bind
  mapError _ := mapError _

theorem complete {inner : Action σ α} (restores : Restores inner) : Restores (complete inner) :=
  restores.bind fun _ => (note _).bind fun _ => pure _

theorem guarded {source : String} {inner : Action σ α} (restores : Restores inner) :
    Restores (guarded source inner) := by
  refine ⟨fun w => ?_⟩
  by_cases again : source ∈ w.stack
  · rw [guarded_of_mem again]
  · rw [guarded_of_not_mem again, above_stack, restores.stack, below_stack, List.dropLast_concat]

theorem within {source : Option String} {inner : Action σ α} (restores : Restores inner) :
    Restores (within source inner) := by
  cases source with
  | none => exact (note _).bind fun _ => restores.complete
  | some source => exact (note _).bind fun _ => restores.complete.guarded

end Restores

namespace Disciplined

theorem pure (a : α) : Disciplined frames (pure a : Action σ α) where
  toRestores := .pure a
  trail _ := trivial
  closed _ := rfl

theorem fail (f : Fault) : Disciplined frames (Traced.fail f : Action σ α) where
  toRestores := .fail f
  trail _ := trivial
  closed failed := nomatch failed

theorem bind {m : Action σ α} {next : α → Action σ β} (first : Disciplined frames m)
    (rest : ∀ a, Disciplined frames (next a)) : Disciplined frames (m >>= next) where
  toRestores := first.toRestores.bind fun a => (rest a).toRestores
  trail {w} holds := by
    cases outcome : (m w).outcome with
    | error f =>
      rw [Traced.bind_of_error outcome]
      exact first.trail holds
    | ok a =>
      have after : Holds frames (m w).state.stack := (first.stack w).symm ▸ holds
      rw [Traced.bind_of_ok outcome]
      refine orderly_append.mpr ⟨first.trail holds, ?_⟩
      rw [first.closed outcome]
      exact (rest a).trail after
  closed {w b} done := by
    obtain ⟨a, doneFirst, doneRest⟩ := Traced.bind_outcome_ok.mp done
    rw [Traced.bind_of_ok doneFirst, enclosing_append, first.closed doneFirst]
    exact (rest a).closed doneRest

theorem mapError {m : Action σ α} (place : Fault → Fault) (disciplined : Disciplined frames m) :
    Disciplined frames (m.mapError place) where
  toRestores := disciplined.toRestores.mapError place
  trail := disciplined.trail
  closed done := disciplined.closed (Traced.mapError_outcome_ok.mp done)

theorem compositional : Tree.Compositional (fun {α} (m : Action σ α) => Disciplined frames m) where
  pure := pure
  bind := bind
  mapError _ := mapError _

theorem note {event : Event} (inside : event.around frames = frames)
    (depth : ∀ {raw depth}, event = .directive raw depth → depth = frames.length) :
    Disciplined frames (note event : Action σ Unit) where
  toRestores := .note event
  trail holds := ⟨⟨holds, depth⟩, trivial⟩
  closed _ := inside

theorem lift (m : Run σ Fault α) : Disciplined frames (lift m) where
  toRestores := .lift m
  trail {w} holds := by
    dsimp only [Walk.lift]
    induction (m w.outside).calls with
    | nil => trivial
    | cons call rest ih => exact ⟨⟨holds, fun same => nomatch same⟩, ih⟩
  closed {w a} _ := by
    dsimp only [Walk.lift]
    induction (m w.outside).calls with
    | nil => rfl
    | cons call rest ih => exact ih

section
variable {source : Option String} {inner : Action σ α}

theorem trail_complete (disciplined : Disciplined (frames ++ [source]) inner) {w : Walk σ}
    (holds : Holds (frames ++ [source]) w.stack) :
    Orderly (frames ++ [source]) (complete inner w).calls := by
  cases outcome : (inner w).outcome with
  | error f =>
    rw [complete_of_error outcome]
    exact disciplined.trail holds
  | ok a =>
    have after : Holds (frames ++ [source]) (inner w).state.stack :=
      (disciplined.stack w).symm ▸ holds
    rw [complete_of_ok outcome]
    refine orderly_append.mpr ⟨disciplined.trail holds, ?_⟩
    rw [disciplined.closed outcome]
    exact ⟨⟨after, fun same => nomatch same⟩, trivial⟩

theorem closed_complete (disciplined : Disciplined (frames ++ [source]) inner) {w : Walk σ} {a : α}
    (done : (complete inner w).outcome = .ok a) :
    enclosing (frames ++ [source]) (complete inner w).calls = frames := by
  cases outcome : (inner w).outcome with
  | error f =>
    rw [complete_of_error outcome] at done
    cases done
  | ok b =>
    rw [complete_of_ok outcome, enclosing_append, disciplined.closed outcome]
    exact List.dropLast_concat

theorem within (disciplined : Disciplined (frames ++ [source]) inner) :
    Disciplined frames (within source inner) where
  toRestores := disciplined.toRestores.within
  trail {w} holds := by
    have taken : Entry.InPlace frames ⟨.expand source, w.stack⟩ := ⟨holds, fun same => nomatch same⟩
    cases source with
    | none => exact ⟨taken, disciplined.trail_complete holds.inside_none⟩
    | some source =>
      rw [within_some]
      refine ⟨taken, ?_⟩
      by_cases again : source ∈ w.stack
      · rw [guarded_of_mem again]
        trivial
      · rw [guarded_of_not_mem again]
        exact disciplined.trail_complete (holds.inside_some again)
  closed {w a} done := by
    cases source with
    | none =>
      rw [within_none] at done ⊢
      exact disciplined.closed_complete done
    | some source =>
      rw [within_some] at done ⊢
      by_cases again : source ∈ w.stack
      · rw [guarded_of_mem again] at done
        cases done
      · rw [guarded_of_not_mem again] at done ⊢
        exact disciplined.closed_complete done

end
end Disciplined
end Walk

namespace Expansion
open Walk
variable {σ : Type} {registry : Registry σ} {context : Context σ} {limit room : Nat}
  {frames : List (Option String)}

theorem disciplined_evaluate (raw : String) :
    Disciplined frames (evaluate registry context (registry.split raw)) :=
  Disciplined.compositional.evaluate (.lift _)
    (fun _ _ _ => (Disciplined.note rfl (by simp)).bind fun _ => .lift _)
    (fun _ _ _ => (Disciplined.note rfl (by simp)).bind fun _ => .lift _) raw

theorem disciplined_expandTree (deep : frames.length + room = limit) (t : Tree) :
    Disciplined frames (expandTree registry context limit room t) := by
  -- Each expansion takes one from the room and adds one to the expansions around.
  induction room generalizing frames t with
  | zero =>
    refine Disciplined.compositional.expand (fun raw _ => ?_) t
    have depth : limit = frames.length := deep.symm
    exact (Disciplined.note rfl fun same => by cases same; exact depth).bind fun _ => .fail _
  | succ room ih =>
    refine Disciplined.compositional.expand (fun raw _ => ?_) t
    have depth : limit - (room + 1) = frames.length := by omega
    refine (Disciplined.note rfl fun same => by cases same; exact depth).bind fun _ =>
      (disciplined_evaluate _).bind fun resolved => .within (ih ?_ resolved.value)
    rw [List.length_append, List.length_singleton]
    omega

theorem restores_evaluate (raw : String) :
    Restores (evaluate registry context (registry.split raw)) := by
  have disciplined : Disciplined [] (evaluate registry context (registry.split raw)) :=
    disciplined_evaluate raw
  exact disciplined.toRestores

theorem restores_expandDirective (raw : String) :
    Restores (expandDirective registry context limit room raw) := by
  induction room generalizing raw with
  | zero => exact (Restores.note _).bind fun _ => .fail _
  | succ room ih =>
    exact (Restores.note _).bind fun _ => (restores_evaluate _).bind fun resolved =>
      .within (Restores.compositional.expand (fun raw _ => ih raw) resolved.value)

theorem restores_expandTree (t : Tree) : Restores (expandTree registry context limit room t) :=
  Restores.compositional.expand (fun raw _ => restores_expandDirective raw) t

/-- A directive is refused for a circular reference of its own just where there is room for it, its
value and all coercions succeed, and the source of the value is on the stack. -/
theorem expandDirective_circular_iff (fits : room ≤ limit) {raw source : String} {w : Walk σ} :
    (0 < room ∧ source ∈ w.stack ∧ ∃ value,
        (evaluate registry context (registry.split raw) w).outcome = .ok ⟨value, some source⟩) ↔
      (expandDirective registry context limit room raw w).outcome =
          .error (.circularReference (w.stack ++ [source])) ∧
        (expandDirective registry context limit room raw w).calls =
          ⟨.directive raw (limit - room), w.stack⟩ ::
            (evaluate registry context (registry.split raw) w).calls ++
            [⟨.expand (some source), w.stack⟩] := by
  have kept : (evaluate registry context (registry.split raw) w).state.stack = w.stack :=
    (restores_evaluate _).stack w
  constructor
  · rintro ⟨positive, again, value, evaluated⟩
    obtain ⟨room, rfl⟩ := Nat.exists_eq_add_of_lt positive
    rw [Nat.zero_add, expandDirective_of_ok evaluated]
    dsimp only
    rw [within_some, guarded_of_mem (kept.symm ▸ again), kept]
    exact ⟨rfl, rfl⟩
  · rintro ⟨failed, trail⟩
    cases room with
    | zero => simp [expandDirective_zero] at trail
    | succ room =>
      cases evaluated : (evaluate registry context (registry.split raw) w).outcome with
      | error f =>
        simp [expandDirective_of_error evaluated] at trail
      | ok resolved =>
        rw [expandDirective_of_ok evaluated] at failed trail
        dsimp only at failed trail
        have taken := List.append_cancel_left trail
        have inner : Accounted registry context limit
            (within resolved.source (expandTree registry context limit room resolved.value)) :=
          .within (accounted_expandTree (Nat.le_of_succ_le fits) resolved.value)
        have again : source ∈ w.stack :=
          inner.mem_stack_of_last failed (taken.trans (List.nil_append _).symm)
        obtain ⟨value, origin⟩ := resolved
        cases origin with
        | none => cases taken
        | some origin =>
          rw [within_some] at taken
          obtain ⟨same, _⟩ := List.cons.inj taken
          simp only [Entry.mk.injEq, Event.expand.injEq, Option.some.injEq] at same
          obtain ⟨rfl, _⟩ := same
          exact ⟨room.succ_pos, again, value, rfl⟩

/-- The discipline of the stack. At every point of a walk the stack holds, outermost first, the sources
of the expansions around that point; these are distinct and no more than the depth. Trees and
directives leave the stack as they found it, however they come out. A directive is refused for a
circular reference of its own just where there is room for it, its token, resolver and coercions raise
no objection, and its source is on the stack. That ends the walk: the cause is the chain of the stack
and the source, which the stack holds once. A circular reference that does not end a walk in this way
was reported by a resolver or a coercion. -/
theorem stack_discipline (registry : Registry σ) (context : Context σ) (maxDepth : Nat) (t : Tree)
    (s : σ) :
    let walked := t.walk registry context maxDepth { outside := s }
    (∀ before e after, walked.calls = before ++ e :: after →
      e.stack = (enclosing [] before).reduceOption ∧ e.stack.Nodup ∧
      e.stack.length ≤ (enclosing [] before).length ∧
      ∀ raw depth, e.event = .directive raw depth → depth = (enclosing [] before).length) ∧
    (∀ limit room w,
      (∀ t, (expandTree registry context limit room t w).state.stack = w.stack) ∧
      ∀ raw, (expandDirective registry context limit room raw w).state.stack = w.stack) ∧
    (∀ room ≤ maxDepth, ∀ raw source w,
      let evaluated := evaluate registry context (registry.split raw) w
      let expanded := expandDirective registry context maxDepth room raw w
      (0 < room ∧ source ∈ w.stack ∧ ∃ value, evaluated.outcome = .ok ⟨value, some source⟩) ↔
        expanded.outcome = .error (.circularReference (w.stack ++ [source])) ∧
          expanded.calls = ⟨.directive raw (maxDepth - room), w.stack⟩ :: evaluated.calls ++
            [⟨.expand (some source), w.stack⟩]) ∧
    (∀ source stack, (⟨.expand (some source), stack⟩ ∈ walked.calls ∧ source ∈ stack) ↔
      ∃ before f, walked.calls = before ++ [⟨.expand (some source), stack⟩] ∧
        walked.outcome = .error f ∧ f.kind = .circularReference ∧
        f.cause = some ("Chain: " ++ " → ".intercalate (stack ++ [source]))) ∧
    (∀ source stack, ⟨.expand (some source), stack⟩ ∈ walked.calls → source ∈ stack →
      stack.count source = 1) ∧
    (∀ f, walked.outcome = .error f → f.kind = .circularReference →
      (∃ source stack, ⟨.expand (some source), stack⟩ ∈ walked.calls ∧ source ∈ stack) ∨
      (∃ resolver ∈ registry.resolvers, ∃ payload s f,
        (resolver.resolve context payload s).outcome = .error f ∧ f.kind = .circularReference) ∨
      (∃ coercion ∈ registry.coercions, ∃ t s f,
        (coercion.apply t s).outcome = .error f ∧ f.kind = .circularReference)) := by
  intro walked
  have accounted : Accounted registry context maxDepth (t.walk registry context maxDepth) :=
    accounted_expandTree (Nat.le_refl _) t
  have disciplined : Disciplined [] (t.walk registry context maxDepth) :=
    disciplined_expandTree (Nat.zero_add _) t
  have orderly : Orderly [] walked.calls := disciplined.trail ⟨rfl, List.nodup_nil⟩
  refine ⟨fun before e after trail => ?_,
    fun limit room w => ⟨fun t => (restores_expandTree t).stack w,
      fun raw => (restores_expandDirective raw).stack w⟩,
    fun room fits raw source w => expandDirective_circular_iff fits, fun source stack => ?_,
    fun source stack member again => ?_,
    fun f failed circular => accounted.circular_origin failed circular⟩
  · rw [trail] at orderly
    obtain ⟨holds, depth⟩ := orderly.inPlace
    exact ⟨holds.sources, holds.nodup, holds.length_le, fun _ _ => depth⟩
  · constructor
    · rintro ⟨member, again⟩
      obtain ⟨before, f, trail, failed, same⟩ := accounted.refused member again
      exact ⟨before, f, trail, failed, congrArg Fault.kind same, congrArg Fault.cause same⟩
    · rintro ⟨before, f, trail, failed, _, _⟩
      exact ⟨trail ▸ List.mem_append_right _ List.mem_cons_self,
        accounted.mem_stack_of_last failed trail⟩
  · obtain ⟨before, after, trail⟩ := List.append_of_mem member
    rw [trail] at orderly
    exact List.count_eq_one_of_mem orderly.inPlace.holds.nodup again

end Expansion
end Directives
