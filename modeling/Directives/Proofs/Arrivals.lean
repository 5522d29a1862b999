import Directives.Proofs.Leaves
import Directives.Proofs.Stack

/-! The directives that a walk comes to, in the tree or in values taken up, and the point of the walk
at which it does. The directives in a trail are just these, and one that fails ends the walk. -/
namespace Directives

namespace Walk
variable {σ α : Type} {source : Option String} {inner : Action σ α} {w inside : Walk σ}

/-- The walk inside an expansion, unless the source leads back to itself. -/
def entered? (w : Walk σ) : Option String → Option (Walk σ)
  | none => some w
  | some source => if source ∈ w.stack then none else some (w.below source)

/-- Ends an expansion that has succeeded. -/
def leave (source : Option String) (a : α) : Action σ α := do
  note .expanded
  if source.isSome then pop
  return a

theorem leave_apply (source : Option String) (a : α) (w : Walk σ) : leave source a w =
    ⟨.ok a, if source.isSome then w.above else w, [⟨.expanded, w.stack⟩]⟩ := by
  cases source <;> rfl

theorem leave_outcome (inner : Action σ α) (source : Option String) (w : Walk σ) :
    ((inner >>= leave source) w).outcome = (inner w).outcome := by
  cases outcome : (inner w).outcome with
  | error f => rw [Traced.bind_of_error outcome]
  | ok a => rw [Traced.bind_of_ok outcome, leave_apply]

theorem leave_calls (inner : Action σ α) (source : Option String) (w : Walk σ) :
    ∃ ending, ((inner >>= leave source) w).calls = (inner w).calls ++ ending ∧
      ∀ e ∈ ending, e.event = .expanded := by
  cases outcome : (inner w).outcome with
  | error f =>
    rw [Traced.bind_of_error outcome]
    exact ⟨[], (List.append_nil _).symm, fun _ member => nomatch member⟩
  | ok a =>
    rw [Traced.bind_of_ok outcome, leave_apply]
    exact ⟨_, rfl, fun e member => by rw [List.mem_singleton.mp member]⟩

/-- To take up a value is to go on in there, and to leave it again. -/
theorem within_resumes (entered : w.entered? source = some inside) :
    (within source inner w).Resumes [⟨.expand source, w.stack⟩]
      ((inner >>= leave source) inside) := by
  have left : (complete inner inside).outcome = ((inner >>= leave source) inside).outcome ∧
      (complete inner inside).calls = ((inner >>= leave source) inside).calls ∧
      ∀ {a}, ((inner >>= leave source) inside).outcome = .ok a →
        ((inner >>= leave source) inside).state =
          if source.isSome then (complete inner inside).state.above else (complete inner inside).state := by
    cases outcome : (inner inside).outcome with
    | error f =>
      rw [complete_of_error outcome, Traced.bind_of_error outcome]
      exact ⟨rfl, rfl, fun done => nomatch done⟩
    | ok a =>
      rw [complete_of_ok outcome, Traced.bind_of_ok outcome, leave_apply]
      exact ⟨rfl, rfl, fun _ => rfl⟩
  obtain ⟨same, called, ends⟩ := left
  cases source with
  | none =>
    obtain rfl := Option.some.inj entered
    rw [within_none]
    exact ⟨same, congrArg (List.cons _) called, fun done => (ends done).symm⟩
  | some source =>
    by_cases again : source ∈ w.stack
    · simp [entered?, again] at entered
    · obtain rfl : w.below source = inside := by simpa [entered?, again] using entered
      rw [within_some, guarded_of_not_mem again]
      exact ⟨same, congrArg (List.cons _) called, fun done => (ends done).symm⟩

theorem refused_of_entered? (refused : w.entered? source = none) :
    ∃ name, source = some name ∧ name ∈ w.stack := by
  cases source with
  | none => cases refused
  | some source => exact ⟨source, rfl, by_contra fun new => by simp [entered?, new] at refused⟩

end Walk

namespace Expansion
open Walk
variable {σ : Type} {registry : Registry σ} {context : Context σ} {limit room : Nat} {t : Tree}
  {w : Walk σ}

/-- A point at which a walk comes to a directive. -/
structure Arrival (σ : Type) where
  /-- What the walk has done so far. -/
  trail : List Entry
  /-- Where the directive stands: the places of the directives around it, outermost first, each in the
  value of the one before, and at last its own. -/
  places : List Location
  raw : String
  /-- How many directives may still enclose one another. -/
  room : Nat
  walk : Walk σ

/-- The walk comes to a directive of the tree, or it takes up the value of one and comes to a directive
in there. -/
inductive Reaches (registry : Registry σ) (context : Context σ) (limit : Nat) :
    Nat → Tree → Walk σ → Arrival σ → Prop
  | here {room : Nat} {t : Tree} {w w' : Walk σ} {place : Location} {raw : String}
      {trail : List Entry} :
    t.Meets (expandText registry (expandDirective registry context limit room)) w place raw trail w' →
    ¬ isPlain registry raw = true →
    Reaches registry context limit room t w ⟨trail, [place], raw, room, w'⟩
  | inside {room : Nat} {t : Tree} {w w' inner : Walk σ} {place : Location} {raw : String}
      {trail : List Entry} {resolved : Resolved} {a : Arrival σ} :
    t.Meets (expandText registry (expandDirective registry context limit (room + 1))) w place raw trail
      w' →
    ¬ isPlain registry raw = true →
    (evaluate registry context (registry.split raw) w').outcome = .ok resolved →
    (evaluate registry context (registry.split raw) w').state.entered? resolved.source = some inner →
    Reaches registry context limit room resolved.value inner a →
    Reaches registry context limit (room + 1) t w
      { a with
        trail := trail ++ (⟨.directive raw (limit - (room + 1)), w'.stack⟩ ::
          (evaluate registry context (registry.split raw) w').calls ++
            ⟨.expand resolved.source,
              (evaluate registry context (registry.split raw) w').state.stack⟩ :: a.trail)
        places := place :: a.places }

/-- Where a failure of the directive is placed. -/
def Arrival.place (a : Arrival σ) (f : Fault) : Fault := (f.inDirective a.raw).beneath a.places.flatten

theorem expandTree_error {f : Fault}
    (failed : (expandTree registry context limit room t w).outcome = .error f) :
    ∃ place raw trail w' g,
      t.Meets (expandText registry (expandDirective registry context limit room)) w place raw trail w' ∧
      ¬ isPlain registry raw = true ∧
      (expandDirective registry context limit room raw w').outcome = .error g := by
  obtain ⟨place, raw, trail, w', _, meets, refused, _⟩ := Tree.visit_error failed
  by_cases plain : isPlain registry raw = true
  · rw [expandText_plain plain] at refused
    cases refused
  rw [expandText_directive plain] at refused
  cases outcome : (expandDirective registry context limit room raw w').outcome with
  | ok v =>
    rw [Traced.mapError_of_ok outcome] at refused
    cases refused
  | error g => exact ⟨place, raw, trail, w', g, meets, plain, outcome⟩

theorem expandTree_calls {e : Entry} {earlier later : List Entry}
    (split : (expandTree registry context limit room t w).calls = earlier ++ e :: later) :
    ∃ place raw trail w' before after,
      t.Meets (expandText registry (expandDirective registry context limit room)) w place raw trail w' ∧
      ¬ isPlain registry raw = true ∧ earlier = trail ++ before ∧
      (expandDirective registry context limit room raw w').calls = before ++ e :: after := by
  obtain ⟨place, raw, trail, w', before, after, meets, rfl, called⟩ := Tree.visit_calls split
  by_cases plain : isPlain registry raw = true
  · rw [expandText_plain plain] at called
    simp [Traced.pure_apply] at called
  · rw [expandText_directive plain] at called
    exact ⟨place, raw, trail, w', before, after, meets, plain, rfl, called⟩

section
variable {raw : String} {resolved : Resolved} {inner : Walk σ}

/-- From the value that it takes up on, a directive goes on with that value. -/
theorem expandDirective_resumes
    (done : (evaluate registry context (registry.split raw) w).outcome = .ok resolved)
    (entered : (evaluate registry context (registry.split raw) w).state.entered? resolved.source =
      some inner) :
    (expandDirective registry context limit (room + 1) raw w).Resumes
      (⟨.directive raw (limit - (room + 1)), w.stack⟩ ::
        (evaluate registry context (registry.split raw) w).calls ++
          [⟨.expand resolved.source, (evaluate registry context (registry.split raw) w).state.stack⟩])
      ((expandTree registry context limit room resolved.value >>= leave resolved.source) inner) := by
  have taken : (within resolved.source (expandTree registry context limit room resolved.value)
      (evaluate registry context (registry.split raw) w).state).Resumes _ _ := within_resumes entered
  rw [expandDirective_of_ok done]
  exact ⟨taken.outcome, by simp [taken.calls], taken.state⟩

theorem expandDirective_calls (raw : String) (w : Walk σ) :
    ∃ rest, (expandDirective registry context limit room raw w).calls =
      ⟨.directive raw (limit - room), w.stack⟩ :: rest := by
  cases room with
  | zero => exact ⟨[], rfl⟩
  | succ room => exact ⟨_, by rw [expandDirective, note_bind]⟩

theorem resumes_here {before after : List (Location × String)} {values : List Tree}
    {place : Location} {trail : List Entry} {w' : Walk σ}
    (split : t.leaves = before ++ (place, raw) :: after)
    (passed : before.mapM (Tree.visitLeaf (expandText registry
      (expandDirective registry context limit room))) w = ⟨.ok values, w', trail⟩)
    (directive : ¬ isPlain registry raw = true) :
    (expandTree registry context limit room t w).Resumes trail
      (((expandDirective registry context limit room raw).mapError
        (Arrival.place ⟨trail, [place], raw, room, w'⟩) >>= fun value =>
          after.mapM (Tree.visitLeaf (expandText registry
            (expandDirective registry context limit room))) >>= fun later =>
              pure (t.refill (values ++ value :: later))) w') := by
  have visited := Tree.visit_resumes split passed
  rw [expandText_directive directive, Traced.mapError_mapError] at visited
  have placed : Fault.beneath place ∘ Fault.inDirective raw =
      Arrival.place ⟨trail, [place], raw, room, w'⟩ := by
    funext f
    simp [Arrival.place]
  rwa [placed] at visited

/-- The directive that is known already stays, and the places add up. -/
theorem beneath_inDirective (f : Fault) (raw outer : String) (place within : Location) :
    (((f.inDirective raw).beneath within).inDirective outer).beneath place =
      (f.inDirective raw).beneath (place ++ within) := by
  cases known : f.directive <;> simp [Fault.inDirective, Fault.beneath, known]

theorem resumes_inside {place : Location} {trail : List Entry} {w' : Walk σ} {a : Arrival σ}
    {next next' : Tree → Action σ Tree}
    (outer : (expandTree registry context limit (room + 1) t w).Resumes trail
      (((expandDirective registry context limit (room + 1) raw).mapError
        (Arrival.place ⟨trail, [place], raw, room + 1, w'⟩) >>= next) w'))
    (done : (evaluate registry context (registry.split raw) w').outcome = .ok resolved)
    (entered : (evaluate registry context (registry.split raw) w').state.entered? resolved.source =
      some inner)
    (within : (expandTree registry context limit room resolved.value inner).Resumes a.trail
      (((expandDirective registry context limit a.room a.raw).mapError a.place >>= next') a.walk)) :
    (expandTree registry context limit (room + 1) t w).Resumes
      (trail ++ (⟨.directive raw (limit - (room + 1)), w'.stack⟩ ::
        (evaluate registry context (registry.split raw) w').calls ++
          ⟨.expand resolved.source,
            (evaluate registry context (registry.split raw) w').state.stack⟩ :: a.trail))
      (((expandDirective registry context limit a.room a.raw).mapError
        (Arrival.place { a with places := place :: a.places }) >>= fun value =>
          (next' value >>= leave resolved.source).mapError
            (Arrival.place ⟨trail, [place], raw, room + 1, w'⟩) >>= next) a.walk) := by
  have taken : (expandDirective registry context limit (room + 1) raw w').Resumes _ _ :=
    (expandDirective_resumes done entered).trans (within.bind (leave resolved.source))
  have whole := outer.trans ((taken.mapError (Arrival.place ⟨trail, [place], raw, room + 1, w'⟩)).bind next)
  have placed : Arrival.place (⟨trail, [place], raw, room + 1, w'⟩ : Arrival σ) ∘ a.place =
      Arrival.place { a with places := place :: a.places } := by
    funext f
    simp [Arrival.place, beneath_inDirective]
  simpa only [Traced.mapError_bind, Traced.mapError_mapError, bind_assoc, placed, List.append_assoc,
    List.cons_append, List.nil_append] using whole

end

theorem Reaches.room_le {a : Arrival σ} (reaches : Reaches registry context limit room t w a) :
    a.room ≤ room := by
  induction reaches with
  | here => exact Nat.le_refl _
  | inside _ _ _ _ _ ih => exact Nat.le_succ_of_le ih

/-- From each directive that it comes to, a walk goes on with that directive. -/
theorem Reaches.resumes {a : Arrival σ} (reaches : Reaches registry context limit room t w a) :
    ∃ next : Tree → Action σ Tree, (expandTree registry context limit room t w).Resumes a.trail
      (((expandDirective registry context limit a.room a.raw).mapError a.place >>= next) a.walk) := by
  induction reaches with
  | here meets directive =>
    obtain ⟨before, after, values, split, passed⟩ := meets
    exact ⟨_, resumes_here split passed directive⟩
  | inside meets directive done entered _ ih =>
    obtain ⟨before, after, values, split, passed⟩ := meets
    obtain ⟨next, within⟩ := ih
    exact ⟨_, resumes_inside (resumes_here split passed directive) done entered within⟩

/-- A walk that comes to a directive fails if the directive does. -/
theorem Reaches.walk {a : Arrival σ} (reaches : Reaches registry context limit room t w a) :
    let expanded := expandDirective registry context limit a.room a.raw a.walk
    ∃ rest, (expandTree registry context limit room t w).calls = a.trail ++ (expanded.calls ++ rest) ∧
      ∀ f, expanded.outcome = .error f → rest = [] ∧
        (expandTree registry context limit room t w).outcome = .error (a.place f) := by
  intro expanded
  obtain ⟨next, resumes⟩ := reaches.resumes
  rw [resumes.calls, resumes.outcome]
  cases outcome : expanded.outcome with
  | error f =>
    rw [Traced.bind_of_error (Traced.mapError_of_error outcome)]
    refine ⟨[], by rw [List.append_nil]; rfl, fun g same => ?_⟩
    cases same
    exact ⟨rfl, rfl⟩
  | ok v =>
    rw [Traced.bind_of_ok (Traced.mapError_of_ok outcome)]
    exact ⟨_, rfl, fun _ failed => nomatch failed⟩

theorem evaluate_calls (raw : String) :
    ∀ e ∈ (evaluate registry context (registry.split raw) w).calls,
      ∀ text depth, e.event ≠ .directive text depth := by
  have looked : ∀ call stack text depth, (⟨.lookup call, stack⟩ : Entry).event ≠ .directive text depth := by
    simp
  refine (Tree.compositional_calls fun e => ∀ text depth, e.event ≠ .directive text depth).evaluate
    (fun w e member => ?_) (fun _ _ _ => Tree.calls_note_lift (by simp) looked _)
    (fun _ _ _ => Tree.calls_note_lift (by simp) looked _) raw w
  obtain ⟨call, _, rfl⟩ := List.mem_map.mp member
  exact looked call _

/-- Among the entries of a directive itself the first alone is a directive. -/
theorem first_of_quiet {own : Entry} {raw : String} {depth : Nat} {stack : List String}
    {rest earlier later : List Entry}
    (quiet : ∀ e ∈ rest, ∀ text depth, e.event ≠ .directive text depth)
    (split : own :: rest = earlier ++ ⟨.directive raw depth, stack⟩ :: later) :
    earlier = [] ∧ own = ⟨.directive raw depth, stack⟩ := by
  cases earlier with
  | nil => exact ⟨rfl, (List.cons.inj split).1⟩
  | cons first earlier =>
    have member : ⟨.directive raw depth, stack⟩ ∈ rest := by
      rw [(List.cons.inj split).2]
      exact List.mem_append_right _ List.mem_cons_self
    exact absurd rfl (quiet _ member raw depth)

/-- Every directive of the trail is one that the walk comes to, just there. -/
theorem exists_reaches {raw : String} {depth : Nat} {stack : List String} {earlier later : List Entry}
    (split : (expandTree registry context limit room t w).calls =
      earlier ++ ⟨.directive raw depth, stack⟩ :: later) :
    ∃ a, Reaches registry context limit room t w a ∧ a.trail = earlier ∧ a.raw = raw ∧
      a.walk.stack = stack ∧ depth = limit - a.room := by
  induction room generalizing t w earlier later with
  | zero =>
    obtain ⟨place, text, trail, w', b, c, meets, plain, rfl, called⟩ := expandTree_calls split
    obtain ⟨rfl, same⟩ := first_of_quiet (fun _ member => absurd member List.not_mem_nil) called
    cases same
    exact ⟨_, .here meets plain, (List.append_nil _).symm, rfl, rfl, rfl⟩
  | succ room ih =>
    obtain ⟨place, text, trail, w', b, c, meets, plain, rfl, called⟩ := expandTree_calls split
    have quiet : ∀ e ∈ (evaluate registry context (registry.split text) w').calls,
        ∀ raw depth, e.event ≠ .directive raw depth := evaluate_calls text
    have itself (here : b = [] ∧ (⟨.directive text (limit - (room + 1)), w'.stack⟩ : Entry) =
        ⟨.directive raw depth, stack⟩) :
        ∃ a, Reaches registry context limit (room + 1) t w a ∧ a.trail = trail ++ b ∧ a.raw = raw ∧
          a.walk.stack = stack ∧ depth = limit - a.room := by
      obtain ⟨rfl, same⟩ := here
      cases same
      exact ⟨_, .here meets plain, (List.append_nil _).symm, rfl, rfl, rfl⟩
    cases evaluated : (evaluate registry context (registry.split text) w').outcome with
    | error f =>
      rw [expandDirective_of_error evaluated] at called
      exact itself (first_of_quiet quiet called)
    | ok resolved =>
      have quietTaken : ∀ e ∈ (evaluate registry context (registry.split text) w').calls ++
          [⟨.expand resolved.source, (evaluate registry context (registry.split text) w').state.stack⟩],
          ∀ text depth, e.event ≠ .directive text depth := by
        intro e member
        rcases List.mem_append.mp member with member | member
        · exact quiet e member
        · rw [List.mem_singleton.mp member]
          simp
      cases entered : (evaluate registry context (registry.split text) w').state.entered?
          resolved.source with
      | none =>
        obtain ⟨name, origin, again⟩ := refused_of_entered? entered
        rw [expandDirective_of_ok evaluated] at called
        simp only [origin, within_some, guarded_of_mem again, List.cons_append] at called
        rw [origin] at quietTaken
        exact itself (first_of_quiet quietTaken called)
      | some inner =>
        rw [(expandDirective_resumes evaluated entered).calls] at called
        rcases append_eq_append_cons called with ⟨rest, own⟩ | ⟨b, rfl, taken⟩
        · exact itself (first_of_quiet quietTaken own)
        obtain ⟨ending, left, last⟩ := leave_calls
          (expandTree registry context limit room resolved.value) resolved.source inner
        rw [left] at taken
        rcases append_eq_append_cons taken with ⟨rest, inside⟩ | ⟨b, rfl, late⟩
        · obtain ⟨a, reaches, rfl, rfl, rfl, depth⟩ := ih inside
          refine ⟨_, .inside meets plain evaluated entered reaches, ?_, rfl, rfl, depth⟩
          simp only [List.append_assoc, List.cons_append, List.nil_append]
        · have impossible := last ⟨.directive raw depth, stack⟩ (by rw [late]; simp)
          cases impossible

end Expansion
end Directives
