import Directives.Registry

/-! Walks: resolution in progress. A walk knows which sources are being expanded around the present
place, and keeps a trail of what it does. Every entry of the trail bears the sources that were on the
stack at that moment. -/
namespace Directives

/-- The state outside, and the sources that are being expanded, outermost first. -/
structure Walk (σ : Type) where
  outside : σ
  stack : List String := []

namespace Walk
variable {σ α : Type}

inductive Event
  /-- A directive is evaluated inside so many others. -/
  | directive (raw : String) (depth : Nat)
  | resolver (token payload : String)
  | coercion (name : String)
  /-- A resolver or a coercion asks for something outside. -/
  | lookup (call : Call)
  /-- The resolver and the coercions of a directive have succeeded, and the value is taken up; it came
  from this source. -/
  | expand (source : Option String)
  /-- The value taken up last is resolved. -/
  | expanded
  deriving DecidableEq, Repr

/-- An event, and the stack at that moment. -/
structure Entry where
  event : Event
  stack : List String
  deriving DecidableEq, Repr

def Entry.lookup? (e : Entry) : Option Call :=
  match e.event with
  | .lookup call => some call
  | _ => none

abbrev Action (σ : Type) := Traced Entry (Walk σ) Fault

def note (event : Event) : Action σ Unit := fun w => ⟨.ok (), w, [⟨event, w.stack⟩]⟩

def lift (m : Run σ Fault α) : Action σ α := fun w =>
  let answer := m w.outside
  ⟨answer.outcome, { w with outside := answer.state },
    answer.calls.map fun call => ⟨.lookup call, w.stack⟩⟩

/-- The walk with one more source on the stack. -/
def below (w : Walk σ) (source : String) : Walk σ := { w with stack := w.stack ++ [source] }

def above (w : Walk σ) : Walk σ := { w with stack := w.stack.dropLast }

def push (source : String) : Action σ Unit := Traced.change fun w => w.below source

def pop : Action σ Unit := Traced.change above

/-- Keeps a source on the stack during an action, also when that fails. A source that is on the stack
already leads back to itself. -/
def guarded (source : String) (inner : Action σ α) : Action σ α := do
  let stack ← Traced.read Walk.stack
  if source ∈ stack then Traced.fail (.circularReference (stack ++ [source]))
  else
    push source
    let result ← inner.attempt
    pop
    Traced.ofExcept result

def complete (inner : Action σ α) : Action σ α := do
  let a ← inner
  note .expanded
  return a

/-- Takes up a value that came from a source. -/
def within (source : Option String) (inner : Action σ α) : Action σ α := do
  note (.expand source)
  match source with
  | some source => guarded source (complete inner)
  | none => complete inner

theorem note_bind {event : Event} {next : Unit → Action σ α} {w : Walk σ} :
    (note event >>= next) w = ⟨(next () w).outcome, (next () w).state,
      ⟨event, w.stack⟩ :: (next () w).calls⟩ := rfl

theorem note_mapError {event : Event} {next : Unit → Action σ α} {place : Fault → Fault} :
    (note event >>= next).mapError place = note event >>= fun u => (next u).mapError place := rfl

section
variable {source : String} {inner : Action σ α} {w : Walk σ}

@[simp] theorem below_stack (w : Walk σ) : (w.below source).stack = w.stack ++ [source] := rfl

@[simp] theorem above_stack (w : Walk σ) : w.above.stack = w.stack.dropLast := rfl

theorem guarded_of_mem (again : source ∈ w.stack) :
    guarded source inner w = ⟨.error (.circularReference (w.stack ++ [source])), w, []⟩ := by
  simp [guarded, bind, Traced.bind, Traced.read, again, Traced.fail]

theorem guarded_of_not_mem (new : source ∉ w.stack) :
    guarded source inner w = ⟨(inner (w.below source)).outcome, (inner (w.below source)).state.above,
      (inner (w.below source)).calls⟩ := by
  cases h : (inner (w.below source)).outcome <;>
    simp [guarded, bind, Traced.bind, Traced.read, new, push, pop, Traced.change, Traced.attempt,
      Traced.ofExcept, Traced.pure, Traced.fail, h]

theorem complete_of_ok {a : α} (done : (inner w).outcome = .ok a) :
    complete inner w = ⟨.ok a, (inner w).state,
      (inner w).calls ++ [⟨.expanded, (inner w).state.stack⟩]⟩ := by
  rw [complete, Traced.bind_of_ok done]
  rfl

theorem complete_of_error {f : Fault} (failed : (inner w).outcome = .error f) :
    complete inner w = ⟨.error f, (inner w).state, (inner w).calls⟩ :=
  Traced.bind_of_error failed

theorem within_none : within none inner w = ⟨(complete inner w).outcome, (complete inner w).state,
    ⟨.expand none, w.stack⟩ :: (complete inner w).calls⟩ := rfl

theorem within_some : within (some source) inner w = ⟨(guarded source (complete inner) w).outcome,
    (guarded source (complete inner) w).state,
    ⟨.expand (some source), w.stack⟩ :: (guarded source (complete inner) w).calls⟩ := rfl

end
end Walk
end Directives
