import Directives.Proofs.Arrivals
import Directives.Proofs.Steady

/-! Two walks abreast. They do the same, at different depths if need be, until the first is cut short;
from there on the second may go on alone. What is compared at each directive is compared of whole walks,
and a directive to which the first walk comes is one to which the second comes. -/
namespace Directives

namespace Tree
variable {κ σ : Type}

/-- A relation that two computations inherit from their parts, and that notes on where a failure happened
do not disturb. -/
structure Correspondence
    (R : {α : Type} → Traced κ σ Fault α → Traced κ σ Fault α → Prop) : Prop where
  pure : ∀ {α : Type} (a : α), R (pure a) (pure a)
  bind : ∀ {α β : Type} {m' m : Traced κ σ Fault α} {next' next : α → Traced κ σ Fault β},
    R m' m → (∀ a, R (next' a) (next a)) → R (m' >>= next') (m >>= next)
  mapError : ∀ {α : Type} {m' m : Traced κ σ Fault α} {place : Fault → Fault},
    (∀ f, (place f).bare = f.bare) → R m' m → R (m'.mapError place) (m.mapError place)

namespace Correspondence
variable {R : {α : Type} → Traced κ σ Fault α → Traced κ σ Fault α → Prop}
  {leaf' leaf : String → Traced κ σ Fault Tree}

theorem compositional (parts : Correspondence R) :
    Compositional (fun {α} (m : Traced κ σ Fault α) => R m m) where
  pure := parts.pure
  bind := parts.bind
  mapError := parts.mapError

theorem visitLeaves (parts : Correspondence R) (texts : List (Location × String))
    (each : ∀ raw, R (leaf' raw) (leaf raw)) :
    R (texts.mapM (visitLeaf leaf')) (texts.mapM (visitLeaf leaf)) := by
  induction texts with
  | nil => exact parts.pure []
  | cons text rest ih =>
    rw [List.mapM_cons, List.mapM_cons]
    exact parts.bind (parts.mapError (Fault.bare_beneath text.1) (each text.2)) fun _ =>
      parts.bind ih fun _ => parts.pure _

theorem visit (parts : Correspondence R) (each : ∀ raw, R (leaf' raw) (leaf raw)) (t : Tree) :
    R (t.visit leaf') (t.visit leaf) := by
  rw [visit_eq, visit_eq]
  exact parts.bind (parts.visitLeaves t.leaves each) fun _ => parts.pure _

end Correspondence

open Walk Expansion in
theorem Correspondence.text {R : {α : Type} → Action σ α → Action σ α → Prop}
    (parts : Correspondence R) {registry' registry : Registry σ}
    {expand' expand : String → Action σ Tree}
    (plain : ∀ raw, isPlain registry' raw = isPlain registry raw)
    (directives : ∀ raw, ¬ isPlain registry raw = true → R (expand' raw) (expand raw)) (raw : String) :
    R (expandText registry' expand' raw) (expandText registry expand raw) := by
  by_cases isPlain : isPlain registry raw = true
  · rw [expandText_plain ((plain raw).trans isPlain), expandText_plain isPlain]
    exact parts.pure _
  · rw [expandText_directive (plain raw ▸ isPlain), expandText_directive isPlain]
    exact parts.mapError (Fault.bare_inDirective raw) (directives raw isPlain)

end Tree

namespace Walk
variable {σ α β : Type}

/-- The event inside so many more directives. -/
def Event.deeper (depth : Nat) : Event → Event
  | .directive raw level => .directive raw (depth + level)
  | event => event

@[simp] theorem Event.deeper_zero (event : Event) : event.deeper 0 = event := by
  cases event <;> simp [deeper]

/-- How two walks are compared. -/
structure Comparison (σ : Type) where
  /-- Which states outside correspond. -/
  outside : σ → σ → Prop
  /-- The sources that the first stack holds in front of those of the second. -/
  outer : List String := []
  /-- How many directives stand around the first walk alone. -/
  depth : Nat := 0
  /-- What both walks may do. -/
  quiet : Entry → Prop := fun _ => True
  /-- Where the first walk may be cut short, and for which reason. -/
  ends : Entry → Fault → Prop

namespace Comparison
variable {c : Comparison σ}

/-- An entry of the second walk as the first walk has it. -/
def shown (c : Comparison σ) (e : Entry) : Entry := ⟨e.event.deeper c.depth, c.outer ++ e.stack⟩

theorem shown_expand (source : Option String) (stack : List String) :
    c.shown ⟨.expand source, stack⟩ = ⟨.expand source, c.outer ++ stack⟩ := rfl

theorem shown_eq_id (level : c.outer = [] ∧ c.depth = 0) : c.shown = id := by
  funext e
  simp [shown, level]

theorem map_shown (level : c.outer = [] ∧ c.depth = 0) (trail : List Entry) :
    trail.map c.shown = trail := by
  rw [shown_eq_id level, List.map_id]

structure Beside (c : Comparison σ) (w' w : Walk σ) : Prop where
  outside : c.outside w'.outside w.outside
  stack : w'.stack = c.outer ++ w.stack

theorem Beside.entered {w' w inner' : Walk σ} {source : Option String} (beside : c.Beside w' w)
    (entered : w'.entered? source = some inner') :
    ∃ inner, w.entered? source = some inner ∧ c.Beside inner' inner := by
  cases source with
  | none =>
    obtain rfl := Option.some.inj entered
    exact ⟨w, rfl, beside⟩
  | some source =>
    by_cases again : source ∈ w'.stack
    · simp [entered?, again] at entered
    · obtain rfl : w'.below source = inner' := by simpa [entered?, again] using entered
      have new : source ∉ w.stack := fun member =>
        again (beside.stack ▸ List.mem_append_right _ member)
      refine ⟨w.below source, by simp [entered?, new], beside.outside, ?_⟩
      rw [below_stack, below_stack, beside.stack, List.append_assoc]

/-- Both walks did the same. -/
structure Through (c : Comparison σ) (answer' answer : Traced.Answer Entry (Walk σ) Fault α) :
    Prop where
  outcome : answer'.outcome = answer.outcome
  state : c.Beside answer'.state answer.state
  calls : answer'.calls = answer.calls.map c.shown
  quiet : ∀ e ∈ answer.calls, c.quiet e

/-- The first walk was cut short at an entry, up to which both did the same. -/
def Cut (c : Comparison σ) (answer' answer : Traced.Answer Entry (Walk σ) Fault α) : Prop :=
  ∃ before e after f, answer'.outcome = .error f ∧ c.ends e f.bare ∧
    answer'.calls = (before ++ [e]).map c.shown ∧ answer.calls = before ++ e :: after ∧
    ∀ e ∈ before, c.quiet e

/-- From corresponding points on, two actions do the same, unless the first is cut short. -/
def Abreast (c : Comparison σ) (m' m : Action σ α) : Prop :=
  ∀ ⦃w' w⦄, c.Beside w' w → c.Through (m' w') (m w) ∨ c.Cut (m' w') (m w)

theorem Cut.error {answer' answer : Traced.Answer Entry (Walk σ) Fault α} (cut : c.Cut answer' answer) :
    ∃ f, answer'.outcome = .error f := by
  obtain ⟨_, _, _, f, failed, _⟩ := cut
  exact ⟨f, failed⟩

theorem Abreast.completed {m' m : Action σ α} (abreast : c.Abreast m' m) {w' w : Walk σ}
    (beside : c.Beside w' w) {a : α} (done : (m' w').outcome = .ok a) : c.Through (m' w') (m w) := by
  rcases abreast beside with same | cut
  · exact same
  · obtain ⟨f, failed⟩ := cut.error
    exact nomatch done.symm.trans failed

theorem Abreast.answer {m' m : Action σ α} (abreast : c.Abreast m' m) {w' w v' : Walk σ}
    (beside : c.Beside w' w) {a : α} {trail' : List Entry} (done : m' w' = ⟨.ok a, v', trail'⟩) :
    ∃ v trail, m w = ⟨.ok a, v, trail⟩ ∧ c.Beside v' v ∧ trail' = trail.map c.shown := by
  have same := abreast.completed beside (by rw [done])
  rw [done] at same
  have outcome : (m w).outcome = .ok a := same.outcome.symm
  exact ⟨(m w).state, (m w).calls, by rw [← outcome], same.state, same.calls⟩

theorem Through.bind {m' m : Action σ α} {next' next : α → Action σ β} {w' w : Walk σ}
    (same : c.Through (m' w') (m w)) (rest : ∀ a, c.Abreast (next' a) (next a)) :
    c.Through ((m' >>= next') w') ((m >>= next) w) ∨ c.Cut ((m' >>= next') w') ((m >>= next) w) := by
  cases outcome : (m w).outcome with
  | error f =>
    rw [Traced.bind_of_error outcome, Traced.bind_of_error (same.outcome.trans outcome)]
    exact .inl ⟨rfl, same.state, same.calls, same.quiet⟩
  | ok a =>
    rw [Traced.bind_of_ok outcome, Traced.bind_of_ok (same.outcome.trans outcome)]
    rcases rest a same.state with later | ⟨before, e, after, f, failed, ends, calls', calls, quiet⟩
    · refine .inl ⟨later.outcome, later.state, ?_, fun e member => ?_⟩
      · simp only [same.calls, later.calls, List.map_append]
      · exact (List.mem_append.mp member).elim (same.quiet e) (later.quiet e)
    · refine .inr ⟨(m w).calls ++ before, e, after, f, failed, ends, ?_, ?_, fun e member => ?_⟩
      · simp only [same.calls, calls', List.map_append, List.append_assoc]
      · simp only [calls, List.append_assoc]
      · exact (List.mem_append.mp member).elim (same.quiet e) (quiet e)

theorem Cut.bind {m' m : Action σ α} {next' next : α → Action σ β} {w' w : Walk σ}
    (cut : c.Cut (m' w') (m w)) : c.Cut ((m' >>= next') w') ((m >>= next) w) := by
  obtain ⟨before, e, after, f, failed, ends, calls', calls, quiet⟩ := cut
  rw [Traced.bind_of_error failed]
  cases outcome : (m w).outcome with
  | error g =>
    rw [Traced.bind_of_error outcome]
    exact ⟨before, e, after, f, rfl, ends, calls', calls, quiet⟩
  | ok a =>
    rw [Traced.bind_of_ok outcome]
    refine ⟨before, e, after ++ (next a (m w).state).calls, f, rfl, ends, calls', ?_, quiet⟩
    simp only [calls, List.append_assoc, List.cons_append]

theorem Through.lift {m' m : Run σ Fault α} {w' w : Walk σ} (beside : c.Beside w' w)
    (outcome : (m' w'.outside).outcome = (m w.outside).outcome)
    (calls : (m' w'.outside).calls = (m w.outside).calls)
    (state : c.outside (m' w'.outside).state (m w.outside).state)
    (quiet : ∀ call ∈ (m w.outside).calls, c.quiet ⟨.lookup call, w.stack⟩) :
    c.Through (lift m' w') (lift m w) := by
  refine ⟨outcome, ⟨state, beside.stack⟩, ?_, fun e member => ?_⟩
  · simp only [Walk.lift, calls, beside.stack, List.map_map]
    rfl
  · obtain ⟨call, asked, rfl⟩ := List.mem_map.mp member
    exact quiet call asked

namespace Abreast

theorem pure (a : α) : c.Abreast (pure a : Action σ α) (pure a) :=
  fun _ _ beside => .inl ⟨rfl, beside, rfl, fun _ member => nomatch member⟩

theorem fail (f : Fault) : c.Abreast (Traced.fail f : Action σ α) (Traced.fail f) :=
  fun _ _ beside => .inl ⟨rfl, beside, rfl, fun _ member => nomatch member⟩

theorem bind {m' m : Action σ α} {next' next : α → Action σ β} (first : c.Abreast m' m)
    (rest : ∀ a, c.Abreast (next' a) (next a)) : c.Abreast (m' >>= next') (m >>= next) := by
  intro w' w beside
  rcases first beside with same | cut
  · exact same.bind rest
  · exact .inr cut.bind

theorem resumes {m' m : Action σ α} {next' next : α → Action σ β} {w' w : Walk σ}
    (outcome : (m' w').outcome = (m w).outcome)
    (beside : c.Beside (m' w').state (m w).state) (rest : ∀ a, c.Abreast (next' a) (next a)) :
    ∃ answer' answer, ((m' >>= next') w').Resumes (m' w').calls answer' ∧
      ((m >>= next) w).Resumes (m w).calls answer ∧
      (c.Through answer' answer ∨ c.Cut answer' answer) := by
  cases done : (m w).outcome with
  | error f =>
    exact ⟨_, _, Traced.resumes_of_error (outcome.trans done) next', Traced.resumes_of_error done next,
      .inl ⟨rfl, beside, rfl, fun _ member => nomatch member⟩⟩
  | ok a =>
    exact ⟨_, _, Traced.resumes_of_ok (outcome.trans done) next', Traced.resumes_of_ok done next,
      rest a beside⟩

theorem mapError {m' m : Action σ α} {place : Fault → Fault} (keeps : ∀ f, (place f).bare = f.bare)
    (abreast : c.Abreast m' m) : c.Abreast (m'.mapError place) (m.mapError place) := by
  intro w' w beside
  rcases abreast beside with same | ⟨before, e, after, f, failed, ends, calls', calls, quiet⟩
  · exact .inl ⟨congrArg (Except.mapError place) same.outcome, same.state, same.calls, same.quiet⟩
  · refine .inr ⟨before, e, after, place f, Traced.mapError_of_error failed, ?_, calls', calls, quiet⟩
    rwa [keeps]

theorem correspondence : Tree.Correspondence (fun {α} (m' m : Action σ α) => c.Abreast m' m) where
  pure := pure
  bind := bind
  mapError := mapError

theorem note {event : Event} (quiet : ∀ stack, c.quiet ⟨event, stack⟩) :
    c.Abreast (note (event.deeper c.depth) : Action σ Unit) (note event) := by
  intro w' w beside
  refine .inl ⟨rfl, beside, ?_, fun e member => ?_⟩
  · simp only [Walk.note, List.map_cons, List.map_nil, shown, beside.stack]
  · rw [List.mem_singleton.mp member]
    exact quiet w.stack

theorem lift {m' m : Run σ Fault α}
    (same : ∀ {s' s}, c.outside s' s → (m' s').outcome = (m s).outcome ∧
      (m' s').calls = (m s).calls ∧ c.outside (m' s').state (m s).state)
    (quiet : ∀ {s' s}, c.outside s' s → ∀ call ∈ (m s).calls, ∀ stack, c.quiet ⟨.lookup call, stack⟩) :
    c.Abreast (lift m') (lift m) := by
  intro w' w beside
  obtain ⟨outcome, calls, state⟩ := same beside.outside
  exact .inl (.lift beside outcome calls state fun call asked =>
    quiet beside.outside call asked w.stack)

theorem pop (level : c.outer = []) : c.Abreast (pop : Action σ Unit) pop := by
  intro w' w beside
  refine .inl ⟨rfl, ⟨beside.outside, ?_⟩, rfl, fun _ member => nomatch member⟩
  have stack : w'.stack = w.stack := by rw [beside.stack, level, List.nil_append]
  change w'.stack.dropLast = c.outer ++ w.stack.dropLast
  rw [level, stack, List.nil_append]

theorem complete {inner' inner : Action σ α} (closed : ∀ stack, c.quiet ⟨.expanded, stack⟩)
    (abreast : c.Abreast inner' inner) : c.Abreast (complete inner') (complete inner) :=
  abreast.bind fun _ => (note closed).bind fun _ => pure _

end Abreast

/-- The first walk has no source of its own on the stack, or it may be cut short where a source leads back
to itself. -/
def Cyclic (c : Comparison σ) : Prop :=
  c.outer = [] ∨ ∀ source stack, source ∈ c.outer ++ stack →
    c.ends ⟨.expand (some source), stack⟩ (.circularReference (c.outer ++ stack ++ [source]))

theorem Through.prepend {answer' answer : Traced.Answer Entry (Walk σ) Fault α} {e : Entry}
    (quiet : c.quiet e) (same : c.Through answer' answer) :
    c.Through ⟨answer'.outcome, answer'.state, c.shown e :: answer'.calls⟩
      ⟨answer.outcome, answer.state, e :: answer.calls⟩ where
  outcome := same.outcome
  state := same.state
  calls := congrArg (List.cons _) same.calls
  quiet := List.forall_mem_cons.mpr ⟨quiet, same.quiet⟩

theorem Cut.prepend {answer' answer : Traced.Answer Entry (Walk σ) Fault α} {e : Entry}
    (quiet : c.quiet e) (cut : c.Cut answer' answer) (w' w : Walk σ) :
    c.Cut ⟨answer'.outcome, w', c.shown e :: answer'.calls⟩ ⟨answer.outcome, w, e :: answer.calls⟩ := by
  obtain ⟨before, last, after, f, failed, ends, calls', calls, quietBefore⟩ := cut
  refine ⟨e :: before, last, after, f, failed, ends, congrArg (List.cons _) calls',
    congrArg (List.cons _) calls, List.forall_mem_cons.mpr ⟨quiet, quietBefore⟩⟩

/-- Walks abreast take up a value alike, except that a source on the first stack alone stops the first. -/
theorem Abreast.within {source : Option String} {inner' inner : Action σ α} (restores : Restores inner)
    (opened : ∀ stack, c.quiet ⟨.expand source, stack⟩) (closed : ∀ stack, c.quiet ⟨.expanded, stack⟩)
    (cyclic : c.Cyclic) (abreast : c.Abreast inner' inner) :
    c.Abreast (within source inner') (within source inner) := by
  have completes := abreast.complete closed
  intro w' w beside
  have same : c.shown ⟨.expand source, w.stack⟩ = ⟨.expand source, w'.stack⟩ := by
    rw [shown, beside.stack]
    rfl
  cases source with
  | none =>
    rw [within_none, within_none, ← same]
    rcases completes beside with through | cut
    · exact .inl (through.prepend (opened _))
    · exact .inr (cut.prepend (opened _) _ _)
  | some source =>
    rw [within_some, within_some, ← same]
    by_cases again : source ∈ w'.stack
    · rw [guarded_of_mem again]
      rcases cyclic with level | ends
      · have stack : w'.stack = w.stack := by rw [beside.stack, level, List.nil_append]
        rw [guarded_of_mem (stack ▸ again), stack]
        exact .inl ⟨rfl, beside, rfl, List.forall_mem_singleton.mpr (opened _)⟩
      · refine .inr ⟨[], _, _, _, rfl, ?_, rfl, rfl, fun _ member => nomatch member⟩
        rw [beside.stack]
        exact ends source w.stack (beside.stack ▸ again)
    · have new : source ∉ w.stack := fun member =>
        again (beside.stack ▸ List.mem_append_right _ member)
      have below : c.Beside (w'.below source) (w.below source) :=
        ⟨beside.outside, by rw [below_stack, below_stack, beside.stack, List.append_assoc]⟩
      rw [guarded_of_not_mem again, guarded_of_not_mem new]
      rcases completes below with through | cut
      · have grown : (Walk.complete inner (w.below source)).state.stack = w.stack ++ [source] :=
          restores.complete.stack _
        have above : c.Beside (Walk.complete inner' (w'.below source)).state.above
            (Walk.complete inner (w.below source)).state.above := by
          refine ⟨through.state.outside, ?_⟩
          rw [above_stack, above_stack, through.state.stack, grown, ← List.append_assoc,
            List.dropLast_concat, List.dropLast_concat]
        exact .inl (Through.prepend (opened _)
          ⟨through.outcome, above, through.calls, through.quiet⟩)
      · exact .inr (cut.prepend (opened _) _ _)

end Comparison
end Walk

namespace Expansion
open Walk
variable {σ : Type} {registry' registry : Registry σ} {context' context : Context σ}
  {limit' limit extra : Nat} {c : Comparison σ}

/-- What has to be known of directives so that walks go abreast, the second with room for so many more
directives than the first. -/
structure Paired (c : Comparison σ) (registry' registry : Registry σ) (context' context : Context σ)
    (limit' limit extra : Nat) : Prop where
  level : limit' + extra = c.depth + limit
  plain : ∀ raw, isPlain registry' raw = isPlain registry raw
  evaluated : ∀ raw depth, ¬ isPlain registry raw = true → depth + extra < limit →
    c.Abreast
      (note (.directive raw (c.depth + depth)) >>= fun _ =>
        evaluate registry' context' (registry'.split raw))
      (note (.directive raw depth) >>= fun _ => evaluate registry context (registry.split raw))
  deepest : ∀ raw, c.Abreast (expandDirective registry' context' limit' 0 raw)
    (expandDirective registry context limit extra raw)
  opened : ∀ source stack, c.quiet ⟨.expand source, stack⟩
  closed : ∀ stack, c.quiet ⟨.expanded, stack⟩
  cyclic : c.Cyclic

namespace Paired

theorem expandText (paired : Paired c registry' registry context' context limit' limit extra)
    {room : Nat}
    (directives : ∀ raw, ¬ isPlain registry raw = true →
      c.Abreast (expandDirective registry' context' limit' room raw)
        (expandDirective registry context limit (room + extra) raw)) (raw : String) :
    c.Abreast (expandText registry' (expandDirective registry' context' limit' room) raw)
      (expandText registry (expandDirective registry context limit (room + extra)) raw) :=
  Comparison.Abreast.correspondence.text paired.plain directives raw

theorem expandDirective (paired : Paired c registry' registry context' context limit' limit extra)
    {room : Nat} (fits : room + extra ≤ limit) (raw : String) (directive : ¬ isPlain registry raw = true) :
    c.Abreast (expandDirective registry' context' limit' room raw)
      (expandDirective registry context limit (room + extra) raw) := by
  induction room generalizing raw with
  | zero =>
    rw [Nat.zero_add]
    exact paired.deepest raw
  | succ room ih =>
    have level := paired.level
    have depth : limit' - (room + 1) = c.depth + (limit - (room + extra + 1)) := by omega
    have evaluated := paired.evaluated raw (limit - (room + extra + 1)) directive (by omega)
    rw [Nat.succ_add, Expansion.expandDirective, Expansion.expandDirective, ← bind_assoc, ← bind_assoc,
      depth]
    refine evaluated.bind fun resolved =>
      .within (restores_expandTree _) (paired.opened _) paired.closed paired.cyclic ?_
    exact Comparison.Abreast.correspondence.visit (paired.expandText (ih (by omega))) resolved.value

theorem expandTree (paired : Paired c registry' registry context' context limit' limit extra)
    {room : Nat} (fits : room + extra ≤ limit) (t : Tree) :
    c.Abreast (expandTree registry' context' limit' room t)
      (expandTree registry context limit (room + extra) t) :=
  Comparison.Abreast.correspondence.visit (paired.expandText (paired.expandDirective fits)) t

theorem within (paired : Paired c registry' registry context' context limit' limit extra)
    {room : Nat} (fits : room + extra ≤ limit) (source : Option String) (value : Tree) :
    c.Abreast (within source (Expansion.expandTree registry' context' limit' room value))
      (within source (Expansion.expandTree registry context limit (room + extra) value)) :=
  .within (restores_expandTree _) (paired.opened _) paired.closed paired.cyclic
    (paired.expandTree fits value)

theorem evaluate (paired : Paired c registry' registry context' context limit' limit extra)
    {raw : String} {depth : Nat} (directive : ¬ isPlain registry raw = true)
    (shallow : depth + extra < limit) {w' w : Walk σ} (beside : c.Beside w' w) {resolved : Resolved}
    (done : (evaluate registry' context' (registry'.split raw) w').outcome = .ok resolved) :
    (evaluate registry context (registry.split raw) w).outcome = .ok resolved ∧
      c.Beside (evaluate registry' context' (registry'.split raw) w').state
        (evaluate registry context (registry.split raw) w).state ∧
      ⟨.directive raw (c.depth + depth), w'.stack⟩ ::
          (evaluate registry' context' (registry'.split raw) w').calls =
        (⟨.directive raw depth, w.stack⟩ ::
          (evaluate registry context (registry.split raw) w).calls).map c.shown := by
  have same := (paired.evaluated raw depth directive shallow).completed beside done
  exact ⟨same.outcome.symm.trans done, same.state, same.calls⟩

end Paired

/-- A directive that the first walk comes to, and the same directive as the second comes to it. -/
structure Arrival.Beside (c : Comparison σ) (extra : Nat) (a' a : Arrival σ) : Prop where
  trail : a'.trail = a.trail.map c.shown
  places : a'.places = a.places
  raw : a'.raw = a.raw
  room : a'.room + extra = a.room
  walk : c.Beside a'.walk a.walk

section
variable {R : {α : Type} → Action σ α → Action σ α → Prop} {room : Nat} {t : Tree} {w' w : Walk σ}
  {a' : Arrival σ}

/-- The second walk comes to each directive that the first comes to. From there on the walks go on with
the directive and with what corresponds after that. -/
theorem Reaches.abreast (paired : Paired c registry' registry context' context limit' limit extra)
    (parts : Tree.Correspondence R)
    (directives : ∀ room raw, ¬ isPlain registry raw = true → room + extra ≤ limit →
      R (expandDirective registry' context' limit' room raw)
        (expandDirective registry context limit (room + extra) raw))
    (ended : R (note .expanded) (note .expanded)) (popped : R pop pop)
    (reaches : Reaches registry' context' limit' room t w' a') (fits : room + extra ≤ limit)
    (beside : c.Beside w' w) :
    ∃ (a : Arrival σ) (next' next : Tree → Action σ Tree),
      Reaches registry context limit (room + extra) t w a ∧ Arrival.Beside c extra a' a ∧
      (∀ v, R (next' v) (next v)) ∧
      (expandTree registry' context' limit' room t w').Resumes a'.trail
        (((expandDirective registry' context' limit' a'.room a'.raw).mapError a'.place >>= next')
          a'.walk) ∧
      (expandTree registry context limit (room + extra) t w).Resumes a.trail
        (((expandDirective registry context limit a.room a.raw).mapError a.place >>= next)
          a.walk) := by
  have later (room : Nat) (fits : room + extra ≤ limit) (texts : List (Location × String)) :
      R (texts.mapM (Tree.visitLeaf (expandText registry' (expandDirective registry' context' limit' room))))
        (texts.mapM (Tree.visitLeaf (expandText registry
          (expandDirective registry context limit (room + extra))))) :=
    parts.visitLeaves texts (parts.text paired.plain fun raw directive =>
      directives room raw directive fits)
  have earlier (room : Nat) (fits : room + extra ≤ limit) (texts : List (Location × String)) :
      c.Abreast
        (texts.mapM (Tree.visitLeaf (expandText registry' (expandDirective registry' context' limit' room))))
        (texts.mapM (Tree.visitLeaf (expandText registry
          (expandDirective registry context limit (room + extra))))) :=
    Comparison.Abreast.correspondence.visitLeaves texts
      (paired.expandText (paired.expandDirective fits))
  have leaving (source : Option String) (v : Tree) : R (leave source v) (leave source v) := by
    refine parts.bind ended fun _ => ?_
    cases source with
    | none => exact parts.bind (parts.pure ()) fun _ => parts.pure v
    | some source => exact parts.bind popped fun _ => parts.pure v
  induction reaches generalizing w with
  | @here room t w' w₁' place raw trail' meets directive =>
    obtain ⟨before, after, values, split, passed'⟩ := meets
    obtain ⟨w₁, trail, passed, beside, shown⟩ := (earlier room fits before).answer beside passed'
    have directive' : ¬ isPlain registry raw = true := paired.plain raw ▸ directive
    exact ⟨⟨trail, [place], raw, room + extra, w₁⟩, _, _,
      .here ⟨before, after, values, split, passed⟩ directive', ⟨shown, rfl, rfl, rfl, beside⟩,
      fun v => parts.bind (later room fits after) fun _ => parts.pure _,
      resumes_here split passed' directive, resumes_here split passed directive'⟩
  | @inside room t w' w₁' inner' place raw trail' resolved a' meets directive done' entered' _ ih =>
    obtain ⟨before, after, values, split, passed'⟩ := meets
    obtain ⟨w₁, trail, passed, beside, shown⟩ := (earlier (room + 1) fits before).answer beside passed'
    have directive' : ¬ isPlain registry raw = true := paired.plain raw ▸ directive
    have level := paired.level
    have depth : c.depth + (limit - (room + extra + 1)) = limit' - (room + 1) := by omega
    have shallow : limit - (room + extra + 1) + extra < limit := by omega
    obtain ⟨done, besideTaken, evaluated⟩ := paired.evaluate directive' shallow beside done'
    obtain ⟨inner, entered, besideInner⟩ := besideTaken.entered entered'
    obtain ⟨a, next₁', next₁, reaches, same, related, resumes', resumes⟩ := ih (by omega) besideInner
    have succ : room + 1 + extra = room + extra + 1 := Nat.succ_add room extra
    have outer := resumes_here split passed directive'
    have rest := later (room + 1) fits after
    rw [succ] at passed outer rest ⊢
    refine ⟨_, _, _, .inside ⟨before, after, values, split, passed⟩ directive' done entered reaches,
      ⟨?_, congrArg (List.cons place) same.places, same.raw, same.room, same.walk⟩, fun v => ?_,
      resumes_inside (resumes_here split passed' directive) done' entered' resumes',
      resumes_inside outer done entered resumes⟩
    · rw [depth] at evaluated
      rw [shown, same.trail, evaluated]
      simp only [List.map_append, List.map_cons, List.cons_append, Comparison.shown_expand,
        besideTaken.stack]
    · exact parts.bind (parts.mapError (fun _ => rfl) (parts.bind (related v) fun _ => leaving _ _))
        fun _ => parts.bind rest fun _ => parts.pure _

end

theorem Reaches.beside (paired : Paired c registry' registry context' context limit' limit extra)
    {room : Nat} {t : Tree} {w' w : Walk σ} {a' : Arrival σ}
    (reaches : Reaches registry' context' limit' room t w' a') (fits : room + extra ≤ limit)
    (beside : c.Beside w' w) :
    ∃ a, Reaches registry context limit (room + extra) t w a ∧ Arrival.Beside c extra a' a := by
  have anything : Tree.Correspondence (fun {α} (_ _ : Action σ α) => True) :=
    ⟨fun _ => trivial, fun _ _ => trivial, fun _ _ => trivial⟩
  obtain ⟨a, _, _, reaches, same, _⟩ := reaches.abreast paired anything (fun _ _ _ _ => trivial)
    trivial trivial fits beside
  exact ⟨a, reaches, same⟩

/-- In surroundings that hold still, a directive is evaluated alike wherever it stands. -/
theorem abreast_evaluate {S : σ → Prop} (steady : registry.Steady context S)
    (outside : ∀ {s' s}, c.outside s' s ↔ S s' ∧ S s)
    (quiet : ∀ {event}, (∀ text depth, event ≠ .directive text depth) →
      ∀ stack, c.quiet ⟨event, stack⟩) (raw : String) :
    c.Abreast (evaluate registry context (registry.split raw))
      (evaluate registry context (registry.split raw)) := by
  have lifted {α : Type} {m : Run σ Fault α} (steady : Traced.Steady S m) :
      c.Abreast (lift m) (lift m) := by
    refine .lift (fun beside => ?_) fun _ _ _ => quiet (by simp)
    obtain ⟨h', h⟩ := outside.mp beside
    obtain ⟨same, called⟩ := steady.agree h' h
    exact ⟨same, called, outside.mpr ⟨steady.stays h', steady.stays h⟩⟩
  refine Comparison.Abreast.correspondence.compositional.evaluate (lifted steady.check)
    (fun resolver member payload => ?_) (fun coercion member t => ?_) raw
  · have noted := Comparison.Abreast.note
      (quiet (by simp) : ∀ stack, c.quiet ⟨.resolver resolver.token payload, stack⟩)
    exact noted.bind fun _ => lifted (steady.resolve resolver member payload)
  · have noted := Comparison.Abreast.note
      (quiet (by simp) : ∀ stack, c.quiet ⟨.coercion coercion.name, stack⟩)
    exact noted.bind fun _ => lifted (steady.apply coercion member t)

/-- In surroundings that hold still, walks through one tree go abreast wherever they begin, except that
the first is cut short at its limit and at the sources that it has on the stack. -/
theorem Paired.of_steady {S : σ → Prop} (steady : registry.Steady context S)
    (outside : ∀ {s' s}, c.outside s' s ↔ S s' ∧ S s) (level : limit' + extra = c.depth + limit)
    (fits : extra ≤ limit)
    (quiet : ∀ event stack, (∀ raw depth, event = .directive raw depth → depth + extra < limit) →
      c.quiet ⟨event, stack⟩)
    (deepest : ∀ raw stack, c.ends ⟨.directive raw (limit - extra), stack⟩ (.depthExceeded limit'))
    (cyclic : c.Cyclic) : Paired c registry registry context context limit' limit extra where
  level := level
  plain _ := rfl
  evaluated raw depth _ shallow := by
    have noted : c.Abreast (note ((Event.directive raw depth).deeper c.depth))
        (note (.directive raw depth)) :=
      .note fun stack => quiet _ stack fun _ _ same => by cases same; exact shallow
    exact noted.bind fun _ => abreast_evaluate steady outside
      (fun {event} other stack => quiet event stack fun text depth same =>
        absurd same (other text depth)) raw
  deepest raw w' w beside := by
    have begins : ∃ rest, (Expansion.expandDirective registry context limit extra raw w).calls =
        ⟨.directive raw (limit - extra), w.stack⟩ :: rest := expandDirective_calls raw w
    obtain ⟨rest, calls⟩ := begins
    have depth : limit' = c.depth + (limit - extra) := by omega
    refine .inr ⟨[], _, rest, _, rfl, deepest raw w.stack, ?_, calls, fun _ member => nomatch member⟩
    rw [expandDirective_zero, beside.stack]
    exact congrArg (fun level => [(⟨.directive raw level, c.outer ++ w.stack⟩ : Entry)]) depth
  opened _ stack := quiet _ stack fun _ _ same => by cases same
  closed stack := quiet _ stack fun _ _ same => by cases same
  cyclic := cyclic

end Expansion
end Directives
