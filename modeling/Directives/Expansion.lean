import Directives.Walk

/-! Resolution of a tree: every text that is a directive is replaced by its value, which is resolved
in turn. A directive that leads back to a source that it came from is refused. -/
namespace Directives

/-- How deep directives may nest unless told otherwise. -/
def defaultMaxDepth : Nat := 32

namespace Tree
variable {κ σ : Type}

mutual

/-- Replaces every text in a tree, from left to right; failures name the place. -/
def visit (leaf : String → Traced κ σ Fault Tree) : Tree → Traced κ σ Fault Tree
  | .text raw => leaf raw
  | .sequence items => do return .sequence (← visitItems leaf 0 items)
  | .mapping fields => do return .mapping (← visitFields leaf fields)
  | scalar => pure scalar
termination_by structural t => t

/-- Replaces the texts in each item; `position` counts the items before. -/
def visitItems (leaf : String → Traced κ σ Fault Tree) (position : Nat) :
    List Tree → Traced κ σ Fault (List Tree)
  | [] => pure []
  | item :: rest => do
    let item ← (visit leaf item).mapError (Fault.under (.index position))
    return item :: (← visitItems leaf (position + 1) rest)
termination_by structural items => items

/-- Replaces the texts in the value of each field; keys stay as they are. -/
def visitFields (leaf : String → Traced κ σ Fault Tree) :
    List (String × Tree) → Traced κ σ Fault (List (String × Tree))
  | [] => pure []
  | (key, value) :: rest => do
    let value ← (visit leaf value).mapError (Fault.under (.key key))
    return (key, value) :: (← visitFields leaf rest)
termination_by structural fields => fields

end

end Tree

namespace Expansion
open Walk
variable {σ : Type}

/-- Applies coercions from left to right; a failure names the coercion. -/
def coerce (registry : Registry σ) : List String → Tree → Action σ Tree
  | [], value => pure value
  | name :: rest, value =>
    match registry.coercion? name with
    | none => Traced.fail (.internal s!"suffix '{name}' matched but is not registered")
    | some coercion => do
      note (.coercion name)
      let value ← (lift (coercion.apply value)).mapError (Fault.inCoercion name)
      coerce registry rest value

/-- The value that a directive's resolver gives; a text with coercions alone is its own value. -/
def fetch (context : Context σ) (stem : String) :
    Option (Resolver σ × String) → Action σ Resolved
  | none => pure ⟨.text stem, none⟩
  | some (resolver, payload) => do
    lift context.check
    note (.resolver resolver.token payload)
    lift (resolver.resolve context payload)

/-- The coerced value of a directive, not yet resolved. -/
def evaluate (registry : Registry σ) (context : Context σ) (split : Split) : Action σ Resolved := do
  let resolved ← fetch context split.stem (registry.resolver? split.stem)
  let value ← coerce registry split.coercions resolved.value
  return { resolved with value }

/-- Whether a text calls for no resolver and no coercion. -/
def isPlain (registry : Registry σ) (raw : String) : Bool :=
  let split := registry.split raw
  (registry.resolver? split.stem).isNone && split.coercions.isEmpty

/-- A plain text stays as it is; any other is a directive. -/
def expandText (registry : Registry σ) (expand : String → Action σ Tree) (raw : String) :
    Action σ Tree :=
  if isPlain registry raw then pure (.text raw) else (expand raw).mapError (Fault.inDirective raw)

/-- The resolved form of a directive. `room` is how many directives may still enclose one another. -/
def expandDirective (registry : Registry σ) (context : Context σ) (limit : Nat) :
    (room : Nat) → (raw : String) → Action σ Tree
  | 0, raw => do
    note (.directive raw limit)
    Traced.fail (.depthExceeded limit)
  | room + 1, raw => do
    note (.directive raw (limit - (room + 1)))
    let resolved ← evaluate registry context (registry.split raw)
    within resolved.source
      (resolved.value.visit (expandText registry (expandDirective registry context limit room)))

/-- The resolved form of a tree inside so many directives that there is room for so many more. -/
def expandTree (registry : Registry σ) (context : Context σ) (limit room : Nat) (t : Tree) :
    Action σ Tree :=
  t.visit (expandText registry (expandDirective registry context limit room))

section
variable {registry : Registry σ} {context : Context σ} {limit room : Nat} {raw stem payload : String}
  {resolver : Resolver σ} {w : Walk σ}

theorem fetch_of_ok (live : (context.check w.outside).outcome = .ok ()) :
    fetch context stem (some (resolver, payload)) w =
      (note (.resolver resolver.token payload) >>= fun _ => lift (resolver.resolve context payload)) w := by
  have checked : (lift context.check w).outcome = .ok () := live
  rw [fetch, Traced.bind_of_ok checked]
  rfl

theorem fetch_of_error {f : Fault} (failed : (context.check w.outside).outcome = .error f) :
    fetch context stem (some (resolver, payload)) w = ⟨.error f, w, []⟩ := by
  have checked : (lift context.check w).outcome = .error f := failed
  rw [fetch, Traced.bind_of_error checked]
  rfl

theorem evaluate_of_error {pair : Resolver σ × String}
    (found : registry.resolver? (registry.split raw).stem = some pair) {f : Fault}
    (failed : (context.check w.outside).outcome = .error f) :
    evaluate registry context (registry.split raw) w = ⟨.error f, w, []⟩ := by
  have refused : fetch context (registry.split raw).stem (some (pair.1, pair.2)) w = ⟨.error f, w, []⟩ :=
    fetch_of_error failed
  rw [evaluate, found, Traced.bind_of_error (by rw [refused]), refused]

theorem expandText_plain {expand : String → Action σ Tree} (plain : isPlain registry raw = true) :
    expandText registry expand raw = pure (.text raw) := if_pos plain

theorem expandText_directive {expand : String → Action σ Tree}
    (directive : ¬ isPlain registry raw = true) :
    expandText registry expand raw = (expand raw).mapError (Fault.inDirective raw) :=
  if_neg directive

theorem expandDirective_zero : expandDirective registry context limit 0 raw w =
    ⟨.error (.depthExceeded limit), w, [⟨.directive raw limit, w.stack⟩]⟩ := rfl

theorem expandDirective_of_error {f : Fault}
    (failed : (evaluate registry context (registry.split raw) w).outcome = .error f) :
    expandDirective registry context limit (room + 1) raw w =
      ⟨.error f, (evaluate registry context (registry.split raw) w).state,
        ⟨.directive raw (limit - (room + 1)), w.stack⟩ ::
          (evaluate registry context (registry.split raw) w).calls⟩ := by
  rw [expandDirective, note_bind, Traced.bind_of_error failed]

theorem expandDirective_of_ok {resolved : Resolved}
    (done : (evaluate registry context (registry.split raw) w).outcome = .ok resolved) :
    expandDirective registry context limit (room + 1) raw w =
      let taken := within resolved.source (expandTree registry context limit room resolved.value)
        (evaluate registry context (registry.split raw) w).state
      ⟨taken.outcome, taken.state, ⟨.directive raw (limit - (room + 1)), w.stack⟩ ::
        (evaluate registry context (registry.split raw) w).calls ++ taken.calls⟩ := by
  rw [expandDirective, note_bind, Traced.bind_of_ok done]
  rfl

end
end Expansion

namespace Tree
variable {σ : Type}

def walk (registry : Registry σ) (context : Context σ) (maxDepth : Nat) (t : Tree) :
    Walk.Action σ Tree :=
  Expansion.expandTree registry context maxDepth maxDepth t

def resolve (registry : Registry σ) (context : Context σ) (maxDepth : Nat) (t : Tree) :
    Run σ Fault Tree := fun s =>
  let answer := t.walk registry context maxDepth { outside := s }
  ⟨answer.outcome, answer.state.outside, answer.calls.filterMap Walk.Entry.lookup?⟩

end Tree
end Directives
