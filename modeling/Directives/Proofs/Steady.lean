import Directives.Builtin
import Directives.Proofs.Visiting

/-! Surroundings that hold still: as long as resolvers and coercions answer as a function of their
arguments, so does a walk, and it ends with the stack that it began with. -/
namespace Directives

/-- Over a set of states the computation gives one outcome and one trace, and it does not lead out of
the set. -/
structure Traced.Steady {κ σ ε α : Type} (S : σ → Prop) (m : Traced κ σ ε α) : Prop where
  agree : ∀ {s s' : σ}, S s → S s' → (m s).outcome = (m s').outcome ∧ (m s).calls = (m s').calls
  stays : ∀ {s : σ}, S s → S (m s).state

/-- Over a set of states the token does not change, and resolvers and coercions answer as a function of
their arguments. -/
structure Registry.Steady {σ : Type} (registry : Registry σ) (context : Context σ) (S : σ → Prop) :
    Prop where
  check : Traced.Steady S context.check
  resolve : ∀ resolver ∈ registry.resolvers, ∀ payload,
    Traced.Steady S (resolver.resolve context payload)
  apply : ∀ coercion ∈ registry.coercions, ∀ t, Traced.Steady S (coercion.apply t)

namespace Traced.Steady
variable {κ σ ε ε' α β : Type} {S : σ → Prop}

theorem pure (a : α) : Steady S (pure a : Traced κ σ ε α) := ⟨fun _ _ => ⟨rfl, rfl⟩, id⟩

theorem fail (e : ε) : Steady S (fail e : Traced κ σ ε α) := ⟨fun _ _ => ⟨rfl, rfl⟩, id⟩

theorem ofExcept (result : Except ε α) : Steady S (ofExcept result : Traced κ σ ε α) := by
  cases result with
  | ok a => exact pure a
  | error e => exact fail e

theorem record (call : κ) : Steady S (record call : Traced κ σ ε Unit) :=
  ⟨fun _ _ => ⟨rfl, rfl⟩, id⟩

theorem read {view : σ → α} (same : ∀ {s s'}, S s → S s' → view s = view s') :
    Steady S (read view : Traced κ σ ε α) :=
  ⟨fun h h' => ⟨congrArg Except.ok (same h h'), rfl⟩, id⟩

theorem bind {m : Traced κ σ ε α} {next : α → Traced κ σ ε β} (first : Steady S m)
    (rest : ∀ a, Steady S (next a)) : Steady S (m >>= next) where
  agree {s s'} h h' := by
    obtain ⟨same, called⟩ := first.agree h h'
    cases done : (m s).outcome with
    | error e =>
      rw [bind_of_error done, bind_of_error (same.symm.trans done)]
      exact ⟨rfl, called⟩
    | ok a =>
      obtain ⟨same', called'⟩ := (rest a).agree (first.stays h) (first.stays h')
      rw [bind_of_ok done, bind_of_ok (same.symm.trans done)]
      exact ⟨same', by simp only [called, called']⟩
  stays {s} h := by
    cases done : (m s).outcome with
    | error e =>
      rw [bind_of_error done]
      exact first.stays h
    | ok a =>
      rw [bind_of_ok done]
      exact (rest a).stays (first.stays h)

theorem mapError {m : Traced κ σ ε α} (f : ε → ε') (steady : Steady S m) :
    Steady S (m.mapError f) where
  agree h h' := (steady.agree h h').imp_left (congrArg (Except.mapError f))
  stays := steady.stays

theorem compositional : Tree.Compositional (fun {α} (m : Traced κ σ Fault α) => Steady S m) where
  pure := pure
  bind := bind
  mapError _ := mapError _

end Traced.Steady

namespace Walk
variable {σ α : Type} {S : σ → Prop} {stack : List String}

/-- Outside the walk is in a state of the set, and inside it has this stack. -/
def At (S : σ → Prop) (stack : List String) (w : Walk σ) : Prop := S w.outside ∧ w.stack = stack

theorem steady_note (event : Event) : Traced.Steady (At S stack) (note event : Action σ Unit) where
  agree h h' := ⟨rfl, by simp only [note, h.2, h'.2]⟩
  stays := id

theorem steady_lift {m : Run σ Fault α} (steady : Traced.Steady S m) :
    Traced.Steady (At S stack) (lift m) where
  agree h h' := by
    obtain ⟨same, called⟩ := steady.agree h.1 h'.1
    exact ⟨same, by simp only [lift, called, h.2, h'.2]⟩
  stays h := ⟨steady.stays h.1, h.2⟩

theorem steady_complete {inner : Action σ α} (steady : Traced.Steady (At S stack) inner) :
    Traced.Steady (At S stack) (complete inner) :=
  steady.bind fun _ => (steady_note _).bind fun _ => .pure _

theorem steady_guarded {source : String} {inner : Action σ α}
    (steady : Traced.Steady (At S (stack ++ [source])) inner) :
    Traced.Steady (At S stack) (guarded source inner) := by
  have inside {w : Walk σ} (h : At S stack w) : At S (stack ++ [source]) (w.below source) :=
    ⟨h.1, congrArg (· ++ [source]) h.2⟩
  by_cases again : source ∈ stack
  · have refused {w : Walk σ} (h : At S stack w) : guarded source inner w =
        ⟨.error (.circularReference (stack ++ [source])), w, []⟩ := by
      rw [guarded_of_mem (by rwa [h.2]), h.2]
    exact ⟨fun h h' => by rw [refused h, refused h']; exact ⟨rfl, rfl⟩,
      fun h => by rw [refused h]; exact h⟩
  · constructor
    · intro w w' h h'
      rw [guarded_of_not_mem (by rwa [h.2]), guarded_of_not_mem (by rwa [h'.2])]
      exact steady.agree (inside h) (inside h')
    · intro w h
      rw [guarded_of_not_mem (by rwa [h.2])]
      obtain ⟨kept, below⟩ := steady.stays (inside h)
      exact ⟨kept, by rw [above_stack, below, List.dropLast_concat]⟩

theorem steady_within {source : Option String} {inner : Action σ α}
    (steady : ∀ stack, Traced.Steady (At S stack) inner) :
    Traced.Steady (At S stack) (within source inner) := by
  refine (steady_note _).bind fun _ => ?_
  cases source with
  | none => exact steady_complete (steady stack)
  | some source => exact steady_guarded (steady_complete (steady (stack ++ [source])))

end Walk

namespace Expansion
open Walk
variable {σ : Type} {registry : Registry σ} {context : Context σ} {S : σ → Prop}
  {stack : List String}

theorem steady_evaluate (steady : registry.Steady context S) (raw : String) :
    Traced.Steady (At S stack) (evaluate registry context (registry.split raw)) :=
  Traced.Steady.compositional.evaluate (steady_lift steady.check)
    (fun resolver member payload => (steady_note _).bind fun _ =>
      steady_lift (steady.resolve resolver member payload))
    (fun coercion member t => (steady_note _).bind fun _ =>
      steady_lift (steady.apply coercion member t)) raw

theorem steady_expandTree (steady : registry.Steady context S) (limit room : Nat) (t : Tree) :
    Traced.Steady (At S stack) (expandTree registry context limit room t) := by
  induction room generalizing t stack with
  | zero =>
    refine Traced.Steady.compositional.expand (fun raw _ => ?_) t
    exact (steady_note _).bind fun _ => .fail _
  | succ room ih =>
    refine Traced.Steady.compositional.expand (fun raw _ => ?_) t
    exact (steady_note _).bind fun _ => (steady_evaluate steady _).bind fun resolved =>
      steady_within fun stack => ih resolved.value

end Expansion

namespace Builtin
variable {σ : Type} {context : Context σ} {S : σ → Prop}

/-- What every program has answers as a function of its arguments in one world, under a token that does
not change, if the secret store does. -/
theorem registry_steady (world : ∀ {s s'}, S s → S s' → context.world s = context.world s')
    (check : Traced.Steady S context.check)
    (read : ∀ store, context.secrets = some store → ∀ path mount,
      Traced.Steady S (store.read context.token path mount)) :
    (registry : Registry σ).Steady context S where
  check := check
  resolve resolver member payload := by
    have looked (name : String) : Traced.Steady S (lookUp context name) :=
      (Traced.Steady.record _).bind fun _ => .read fun h h' => by rw [world h h']
    have file (path : String) : Traced.Steady S (readFile context path) :=
      check.bind fun _ => (Traced.Steady.record _).bind fun _ => .read fun h h' => by rw [world h h']
    simp only [registry, resolvers, List.mem_cons, List.not_mem_nil, or_false] at member
    rcases member with rfl | rfl | rfl | rfl | rfl
    · refine (looked payload).bind fun value => ?_
      cases value with
      | none => exact .fail _
      | some value =>
        dsimp only
        split
        · exact .fail _
        · exact .pure _
    · exact (looked payload).bind fun _ => .pure _
    · refine (file payload).bind fun found => ?_
      split
      · exact .pure _
      · exact .fail _
    · refine (file payload).bind fun found => ?_
      split
      · exact .pure _
      · split
        · exact .pure _
        · exact .fail _
    · simp only [secretResolver]
      split
      · exact .fail _
      · next store found =>
        exact check.bind fun _ => (Traced.Steady.record _).bind fun _ =>
          (read store found _ _).bind fun _ => .pure _
  apply coercion member t := by
    simp only [registry, coercions, List.mem_cons, List.not_mem_nil, or_false] at member
    rcases member with rfl | rfl <;> exact .ofExcept _

/-- Without secrets there is nothing but the world, and it holds still. -/
theorem registry_steady_world (world : World) :
    registry.Steady (Context.ofWorlds none) (· = world) := by
  refine registry_steady (fun h h' => h.trans h'.symm) ⟨fun h h' => ?_, id⟩ fun _ found => ?_
  · rw [h, h']
    exact ⟨rfl, rfl⟩
  · cases found

end Builtin
end Directives
