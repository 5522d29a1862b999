/-! Computations that look things up and change a state, with a trace of what they did. The trace is
part of the answer, whether the computation succeeds or fails. -/
namespace Directives

/-- The end of a computation: how it came out, the state then, and its trace, in order. -/
structure Traced.Answer (κ σ ε α : Type) where
  outcome : Except ε α
  state : σ
  calls : List κ

/-- A computation over a state of type `σ` that may fail with an `ε` and leaves a trace of `κ`s. -/
def Traced (κ σ ε α : Type) := σ → Traced.Answer κ σ ε α

namespace Traced
variable {κ σ ε ε' α β : Type}

protected def pure (a : α) : Traced κ σ ε α := fun s => ⟨.ok a, s, []⟩

protected def bind (m : Traced κ σ ε α) (next : α → Traced κ σ ε β) : Traced κ σ ε β := fun s =>
  match (m s).outcome with
  | .ok a =>
    let after := next a (m s).state
    ⟨after.outcome, after.state, (m s).calls ++ after.calls⟩
  | .error e => ⟨.error e, (m s).state, (m s).calls⟩

instance : Monad (Traced κ σ ε) where
  pure := Traced.pure
  bind := Traced.bind

def fail (e : ε) : Traced κ σ ε α := fun s => ⟨.error e, s, []⟩

def ofExcept : Except ε α → Traced κ σ ε α
  | .ok a => Traced.pure a
  | .error e => fail e

def mapError (f : ε → ε') (m : Traced κ σ ε α) : Traced κ σ ε' α := fun s =>
  ⟨(m s).outcome.mapError f, (m s).state, (m s).calls⟩

/-- Changes the failure, if there is one, in view of the state it left. -/
def explain (f : σ → ε → ε') (m : Traced κ σ ε α) : Traced κ σ ε' α := fun s =>
  ⟨(m s).outcome.mapError (f (m s).state), (m s).state, (m s).calls⟩

/-- Hands on the outcome, whatever it is. -/
def attempt (m : Traced κ σ ε α) : Traced κ σ ε' (Except ε α) := fun s =>
  ⟨.ok (m s).outcome, (m s).state, (m s).calls⟩

def record (call : κ) : Traced κ σ ε Unit := fun s => ⟨.ok (), s, [call]⟩

def read (view : σ → α) : Traced κ σ ε α := fun s => ⟨.ok (view s), s, []⟩

def change (f : σ → σ) : Traced κ σ ε Unit := fun s => ⟨.ok (), f s, []⟩

theorem pure_apply (a : α) (s : σ) : (pure a : Traced κ σ ε α) s = ⟨.ok a, s, []⟩ := rfl

theorem bind_of_ok {m : Traced κ σ ε α} {next : α → Traced κ σ ε β} {s : σ} {a : α}
    (h : (m s).outcome = .ok a) :
    (m >>= next) s = ⟨(next a (m s).state).outcome, (next a (m s).state).state,
      (m s).calls ++ (next a (m s).state).calls⟩ := by
  simp only [bind, Traced.bind, h]

theorem bind_of_error {m : Traced κ σ ε α} {next : α → Traced κ σ ε β} {s : σ} {e : ε}
    (h : (m s).outcome = .error e) :
    (m >>= next) s = ⟨.error e, (m s).state, (m s).calls⟩ := by
  simp only [bind, Traced.bind, h]

theorem record_bind (call : κ) (next : Unit → Traced κ σ ε α) (s : σ) :
    (record call >>= next) s = ⟨(next () s).outcome, (next () s).state, call :: (next () s).calls⟩ :=
  rfl

theorem read_bind (view : σ → β) (next : β → Traced κ σ ε α) (s : σ) :
    (read view >>= next) s = next (view s) s := rfl

theorem bind_outcome_ok {m : Traced κ σ ε α} {next : α → Traced κ σ ε β} {s : σ} {b : β} :
    ((m >>= next) s).outcome = .ok b ↔
      ∃ a, (m s).outcome = .ok a ∧ (next a (m s).state).outcome = .ok b := by
  cases h : (m s).outcome with
  | ok a => simp [bind_of_ok h]
  | error e => simp [bind_of_error h]

theorem bind_pure_apply (m : Traced κ σ ε α) (f : α → β) (s : σ) :
    (m >>= fun a => pure (f a)) s = ⟨(m s).outcome.map f, (m s).state, (m s).calls⟩ := by
  cases h : (m s).outcome with
  | ok a => rw [bind_of_ok h]; simp [pure_apply, Except.map]
  | error e => rw [bind_of_error h]; rfl

theorem bind_ofExcept_apply (m : Traced κ σ ε α) (f : α → Except ε β) (s : σ) :
    (m >>= fun a => ofExcept (f a)) s = ⟨(m s).outcome.bind f, (m s).state, (m s).calls⟩ := by
  cases h : (m s).outcome with
  | error e =>
    rw [bind_of_error h]
    rfl
  | ok a =>
    rw [bind_of_ok h]
    cases made : f a <;> simp [ofExcept, Traced.pure, fail, Except.bind, made]

theorem outcome_ofExcept {outcome : Except ε α} {s : σ} :
    ((ofExcept outcome : Traced κ σ ε α) s).outcome = outcome := by
  cases outcome <;> rfl

theorem mapError_of_ok {f : ε → ε'} {m : Traced κ σ ε α} {s : σ} {a : α}
    (h : (m s).outcome = .ok a) : (m.mapError f s).outcome = .ok a :=
  congrArg (Except.mapError f) h

theorem mapError_of_error {f : ε → ε'} {m : Traced κ σ ε α} {s : σ} {e : ε}
    (h : (m s).outcome = .error e) : (m.mapError f s).outcome = .error (f e) :=
  congrArg (Except.mapError f) h

theorem mapError_outcome_ok {f : ε → ε'} {m : Traced κ σ ε α} {s : σ} {a : α} :
    (m.mapError f s).outcome = .ok a ↔ (m s).outcome = .ok a := by
  cases h : (m s).outcome with
  | ok b => rw [mapError_of_ok h, Except.ok.injEq, Except.ok.injEq]
  | error e => simp [mapError_of_error h]

theorem mapError_pure (f : ε → ε') (a : α) :
    (pure a : Traced κ σ ε α).mapError f = pure a := rfl

theorem mapError_mapError {ε'' : Type} (f : ε → ε') (g : ε' → ε'') (m : Traced κ σ ε α) :
    (m.mapError f).mapError g = m.mapError (g ∘ f) := by
  funext s
  simp only [mapError]
  cases (m s).outcome <;> rfl

theorem mapError_bind (f : ε → ε') (m : Traced κ σ ε α) (next : α → Traced κ σ ε β) :
    (m >>= next).mapError f = m.mapError f >>= fun a => (next a).mapError f := by
  funext s
  cases h : (m s).outcome with
  | ok a =>
    rw [bind_of_ok (mapError_of_ok h)]
    simp only [mapError, bind_of_ok h]
  | error e =>
    rw [bind_of_error (mapError_of_error h)]
    simp only [mapError, bind_of_error h]
    rfl

theorem bind_pure (m : Traced κ σ ε α) : Traced.bind m Traced.pure = m := by
  funext s
  cases h : m s with
  | mk outcome state calls => cases outcome <;> simp [Traced.bind, Traced.pure, h]

theorem bind_assoc {γ : Type} (m : Traced κ σ ε α) (f : α → Traced κ σ ε β)
    (g : β → Traced κ σ ε γ) :
    Traced.bind (Traced.bind m f) g = Traced.bind m fun a => Traced.bind (f a) g := by
  funext s
  simp only [Traced.bind]
  cases h : (m s).outcome with
  | error e => simp
  | ok a => cases hf : (f a (m s).state).outcome <;> simp [hf]

instance : LawfulMonad (Traced κ σ ε) :=
  LawfulMonad.mk' _ bind_pure (fun _ _ => rfl) bind_assoc

end Traced
end Directives
