import Mathlib.Data.List.Induction
import Directives.Proofs.Failures
import Directives.Proofs.Peeling
import Directives.Proofs.Stability

/-! Chains of the coercions that every program has. A text goes through those chains that coerce it to an
integer, if at all, before they coerce it to a duration; any other chain breaks, at the first name that
does not go with what stands before it. -/
namespace Directives.Builtin
open Expansion Walk
variable {σ : Type} {s name : String} {chain : List String} {i j : Nat} {v : Tree} {cause : Fault}

def coercionNames : List String := [integerName, durationName]

theorem mem_coercionNames : name ∈ coercionNames ↔ name = integerName ∨ name = durationName := by
  simp [coercionNames]

/-- So many coercions to an integer, and then so many to a duration. -/
def inOrder (i j : Nat) : List String := List.replicate i integerName ++ List.replicate j durationName

/-- What comes of a text in that order. -/
inductive Coerced (s : String) : (i j : Nat) → Tree → Prop
  | integer {i : Nat} {n : Int64} : Integer.int64OfText s = .ok n → Coerced s (i + 1) 0 (.integer n)
  /-- An integer that is not negative counts nanoseconds. -/
  | nanoseconds {i j : Nat} {n : Int64} {d : Duration} : Integer.int64OfText s = .ok n → 0 ≤ n.toInt →
    d.seconds = n.toInt.toNat / nanosPerSecond → d.nanos = n.toInt.toNat % nanosPerSecond →
    Coerced s (i + 1) (j + 1) (.duration d)
  | duration {j : Nat} {d : Duration} : Duration.ofText s = .ok d → Coerced s 0 (j + 1) (.duration d)

/-- Why a chain that was in order so far breaks at a name. -/
inductive Breaks (s : String) : (i j : Nat) → (name : String) → Fault → Prop
  | noInteger {malformed : Integer.Malformed} : Integer.int64OfText s = .error malformed →
    Breaks s 0 0 integerName (.parse s!"parse int {Text.quoted s}: {malformed.message}")
  | noDuration {malformed : Duration.Malformed} : Duration.ofText s = .error malformed →
    Breaks s 0 0 durationName (.parse s!"parse duration {Text.quoted s}: {malformed.message}")
  | negative {i : Nat} {n : Int64} : Integer.int64OfText s = .ok n → n.toInt < 0 →
    Breaks s (i + 1) 0 durationName (.parse s!"negative duration: {n.toInt}")
  | afterDuration {i j : Nat} {d : Duration} : Coerced s i (j + 1) (.duration d) →
    Breaks s i (j + 1) integerName (.typeCoercion "an integer" "duration")

def applied (t : Tree) (name : String) : Except Fault Tree :=
  (if name = integerName then toInteger t else toDuration t).mapError (Fault.inCoercion name)

theorem applied_integer (t : Tree) :
    applied t integerName = (toInteger t).mapError (Fault.inCoercion integerName) := by
  rw [applied, if_pos rfl]

theorem applied_duration (t : Tree) :
    applied t durationName = (toDuration t).mapError (Fault.inCoercion durationName) := by
  rw [applied, if_neg (by decide)]

/-- A chain is a fold. -/
theorem outcome_coerce (known : ∀ name ∈ chain, name ∈ coercionNames) (t : Tree) (w : Walk σ) :
    (coerce registry chain t w).outcome = chain.foldlM applied t := by
  induction chain generalizing t w with
  | nil => rfl
  | cons name rest ih =>
    obtain ⟨member, later⟩ := List.forall_mem_cons.mp known
    obtain ⟨coercion, found, made⟩ : ∃ coercion, (registry : Registry σ).coercion? name = some coercion ∧
        ∀ t, coercion.apply t = .ofExcept (if name = integerName then toInteger t else toDuration t) := by
      rcases mem_coercionNames.mp member with rfl | rfl
      · exact ⟨_, rfl, fun t => rfl⟩
      · exact ⟨_, rfl, fun t => rfl⟩
    have outcome (t : Tree) : (coercion.apply t w.outside).outcome =
        if name = integerName then toInteger t else toDuration t := by
      rw [made]
      cases (if name = integerName then toInteger t else toDuration t) <;> rfl
    rw [List.foldlM_cons, applied, ← outcome]
    cases coerced : (coercion.apply t w.outside).outcome with
    | error f =>
      rw [coerce_cons_of_error found coerced]
      rfl
    | ok v =>
      rw [coerce_cons_of_ok found coerced]
      exact ih later v _

theorem foldlM_replicate (kept : applied v name = .ok v) (k : Nat) :
    (List.replicate k name).foldlM applied v = .ok v := by
  induction k with
  | zero => rfl
  | succ k ih =>
    rw [List.replicate_succ, List.foldlM_cons, kept]
    exact ih

/-- In order, a text comes through. -/
theorem Coerced.outcome (coerced : Coerced s i j v) : (inOrder i j).foldlM applied (.text s) = .ok v := by
  have integers {i : Nat} {n : Int64} (read : Integer.int64OfText s = .ok n) :
      (List.replicate (i + 1) integerName).foldlM applied (.text s) = .ok (.integer n) := by
    rw [List.replicate_succ, List.foldlM_cons, applied_integer, toInteger, read]
    exact foldlM_replicate rfl i
  have durations {t : Tree} {d : Duration} (made : toDuration t = .ok (.duration d)) (j : Nat) :
      (List.replicate (j + 1) durationName).foldlM applied t = .ok (.duration d) := by
    rw [List.replicate_succ, List.foldlM_cons, applied_duration, made]
    exact foldlM_replicate rfl j
  rw [inOrder, List.foldlM_append]
  cases coerced with
  | integer read =>
    rw [integers read]
    rfl
  | @nanoseconds _ j n d read positive seconds nanos =>
    have counted : Duration.ofNanos? n.toInt.toNat = some d := by
      obtain ⟨_, _, fits, _⟩ := d
      subst seconds nanos
      exact dif_pos fits
    rw [integers read]
    exact durations (by rw [toDuration, if_pos positive, counted]) j
  | @duration j d read => exact durations (by rw [toDuration, read]) j

/-- Behind what is in order, the name that breaks the chain is named. -/
theorem Breaks.outcome (breaks : Breaks s i j name cause) (after : List String) :
    (inOrder i j ++ name :: after).foldlM applied (.text s) = .error (cause.inCoercion name) := by
  have broken {t : Tree} (came : (inOrder i j).foldlM applied (.text s) = .ok t)
      (refused : applied t name = .error (cause.inCoercion name)) :
      (inOrder i j ++ name :: after).foldlM applied (.text s) = .error (cause.inCoercion name) := by
    rw [List.foldlM_append, came]
    show (name :: after).foldlM applied t = _
    rw [List.foldlM_cons, refused]
    rfl
  cases breaks with
  | noInteger malformed => exact broken rfl (by rw [applied_integer, toInteger, malformed]; rfl)
  | noDuration malformed => exact broken rfl (by rw [applied_duration, toDuration, malformed]; rfl)
  | negative read below =>
    refine broken (Coerced.integer read).outcome ?_
    rw [applied_duration, toDuration, if_neg (Int.not_le.mpr below)]
    rfl
  | afterDuration coerced => exact broken coerced.outcome rfl

/-- After one more name the chain is in order, or it breaks there. -/
theorem Coerced.step (coerced : Coerced s i j v) (known : name ∈ coercionNames) :
    (∃ i' j' v', inOrder i j ++ [name] = inOrder i' j' ∧ Coerced s i' j' v') ∨
      ∃ cause, Breaks s i j name cause := by
  have again (i j : Nat) : inOrder i j ++ [durationName] = inOrder i (j + 1) := by
    rw [inOrder, inOrder, List.replicate_succ', List.append_assoc]
  have known := mem_coercionNames.mp known
  cases coerced with
  | @integer i n read =>
    rcases known with rfl | rfl
    · exact .inl ⟨i + 2, 0, _, by simp [inOrder, ← List.replicate_succ'], .integer read⟩
    · by_cases positive : 0 ≤ n.toInt
      · have few : n.toInt.toNat / nanosPerSecond < 18446744073709551616 := by
          have := n.toInt_lt
          rw [nanosPerSecond]
          omega
        have rest : n.toInt.toNat % nanosPerSecond < 1000000000 := Nat.mod_lt _ (by decide)
        exact .inl ⟨i + 1, 1, .duration ⟨_, _, few, rest⟩, again (i + 1) 0, .nanoseconds read positive rfl rfl⟩
      · exact .inr ⟨_, .negative read (Int.not_le.mp positive)⟩
  | @nanoseconds i j _ _ read positive seconds nanos =>
    rcases known with rfl | rfl
    · exact .inr ⟨_, .afterDuration (.nanoseconds read positive seconds nanos)⟩
    · exact .inl ⟨_, _, _, again (i + 1) (j + 1), .nanoseconds read positive seconds nanos⟩
  | @duration j _ read =>
    rcases known with rfl | rfl
    · exact .inr ⟨_, .afterDuration (.duration read)⟩
    · exact .inl ⟨_, _, _, again 0 (j + 1), .duration read⟩

/-- Every chain is in order, or is so up to a name at which it breaks. -/
theorem coerced_or_breaks (s : String) (full : chain ≠ []) (known : ∀ name ∈ chain, name ∈ coercionNames) :
    (∃ i j v, chain = inOrder i j ∧ Coerced s i j v) ∨
      ∃ i j name after cause, chain = inOrder i j ++ name :: after ∧ Breaks s i j name cause := by
  -- From the end: what stands before the last name is in order, or has broken already.
  induction chain using List.reverseRecOn with
  | nil => exact absurd rfl full
  | append_singleton chain name ih =>
    have member : name ∈ coercionNames := known name (by simp)
    rcases chain with _ | ⟨first, rest⟩
    · rcases mem_coercionNames.mp member with rfl | rfl
      · cases read : Integer.int64OfText s with
        | ok n => exact .inl ⟨1, 0, _, rfl, .integer read⟩
        | error malformed => exact .inr ⟨0, 0, _, [], _, rfl, .noInteger read⟩
      · cases read : Duration.ofText s with
        | ok d => exact .inl ⟨0, 1, _, rfl, .duration read⟩
        | error malformed => exact .inr ⟨0, 0, _, [], _, rfl, .noDuration read⟩
    · rcases ih (List.cons_ne_nil first rest) fun name member => known name (List.mem_append_left _ member) with
        ⟨i, j, v, ordered, coerced⟩ | ⟨i, j, broken, after, cause, ordered, breaks⟩
      · rw [ordered]
        rcases coerced.step member with longer | ⟨cause, breaks⟩
        · exact .inl longer
        · exact .inr ⟨i, j, name, [], cause, rfl, breaks⟩
      · exact .inr ⟨i, j, broken, after ++ [name], cause, by rw [ordered]; simp, breaks⟩

/-- What a chain makes of a text. -/
theorem chain_ok_iff (full : chain ≠ []) (known : ∀ name ∈ chain, name ∈ coercionNames) :
    chain.foldlM applied (.text s) = .ok v ↔ ∃ i j, chain = inOrder i j ∧ Coerced s i j v := by
  constructor
  · intro done
    rcases coerced_or_breaks s full known with
      ⟨i, j, v', rfl, coerced⟩ | ⟨i, j, name, after, cause, rfl, breaks⟩
    · cases done.symm.trans coerced.outcome
      exact ⟨i, j, rfl, coerced⟩
    · cases done.symm.trans (breaks.outcome after)
  · rintro ⟨i, j, rfl, coerced⟩
    exact coerced.outcome

theorem chain_error_iff {f : Fault} (full : chain ≠ []) (known : ∀ name ∈ chain, name ∈ coercionNames) :
    chain.foldlM applied (.text s) = .error f ↔ ∃ i j name after cause,
      chain = inOrder i j ++ name :: after ∧ Breaks s i j name cause ∧ f = cause.inCoercion name := by
  constructor
  · intro failed
    rcases coerced_or_breaks s full known with
      ⟨i, j, v', rfl, coerced⟩ | ⟨i, j, name, after, cause, rfl, breaks⟩
    · cases failed.symm.trans coerced.outcome
    · cases failed.symm.trans (breaks.outcome after)
      exact ⟨i, j, name, after, cause, rfl, breaks, rfl⟩
  · rintro ⟨i, j, name, after, cause, rfl, breaks, rfl⟩
    exact breaks.outcome after

/-- A text before a chain is coerced, and there is nothing to resolve in what comes of it. -/
theorem outcome_resolve_text {context : Context σ} {maxDepth : Nat} {outside : σ} (sound : Split.Stem s)
    (begins : ∀ resolver ∈ (resolvers : List (Resolver σ)), ∀ payload, s ≠ resolver.token ++ payload)
    (ends : ∀ name ∈ coercionNames, ∀ rest, rest ≠ "" → s ≠ rest ++ "::" ++ name) (full : chain ≠ [])
    (known : ∀ name ∈ chain, name ∈ coercionNames) (deep : 0 < maxDepth) :
    let raw := Split.text ⟨s, chain⟩
    ((Tree.text raw).resolve registry context maxDepth outside).outcome =
      (chain.foldlM applied (.text s)).mapError (Fault.inDirective raw) := by
  intro raw
  have whole : Split.ofText coercionNames s = ⟨s, []⟩ :=
    Split.ofText_eq_self_iff.mpr fun name member rest written =>
      .inl (Decidable.byContradiction fun some => ends name member rest some written)
  have split : (registry : Registry σ).split raw = ⟨s, chain⟩ := by
    refine Split.ofText_text sound whole fun name member => ?_
    have listed : ∀ name ∈ coercionNames,
        name ∈ coercionNames ∧ ':' ∉ name.toList ∧ '\n' ∉ name.toList := by decide
    exact listed name (known name member)
  have unmatched : (registry : Registry σ).resolver? s = none := Registry.resolver?_eq_none_iff.mpr begins
  have directive : ¬ isPlain (registry : Registry σ) raw = true := by
    simp [isPlain, split, full]
  obtain ⟨room, rfl⟩ := Nat.exists_eq_add_one.mpr deep
  let w : Walk σ := { outside }
  -- No resolver takes the stem, so the value has no source and only the chain can fail.
  have evaluated : (evaluate registry context ((registry : Registry σ).split raw) w).outcome =
      (chain.foldlM applied (.text s)).map fun v => ⟨v, none⟩ := by
    rw [evaluate, split, unmatched, fetch, pure_bind]
    cases coerced : (coerce registry chain (.text s) w).outcome with
    | error f =>
      rw [Traced.bind_of_error coerced, ← outcome_coerce known (.text s) w, coerced]
      rfl
    | ok v =>
      rw [Traced.bind_of_ok coerced, ← outcome_coerce known (.text s) w, coerced]
      rfl
  have resolved : ((Tree.text raw).resolve registry context (room + 1) outside).outcome =
      (expandDirective registry context (room + 1) (room + 1) raw w).outcome.mapError
        (Fault.inDirective raw) := by
    rw [Tree.resolve, Tree.walk, expandTree, Tree.visit, expandText_directive directive]
    rfl
  rw [resolved]
  cases folded : chain.foldlM applied (.text s) with
  | error f =>
    rw [folded] at evaluated
    rw [expandDirective_of_error evaluated]
  | ok v =>
    rw [folded] at evaluated
    obtain ⟨i, j, _, coerced⟩ := (chain_ok_iff full known).mp folded
    have settled : Settled (registry : Registry σ) v := by cases coerced <;> simp [Settled, Tree.texts]
    rw [expandDirective_of_ok evaluated, settled.expandTree]
    rfl

/-- Chains of coercions, each to an integer or to a duration, go first to integers and then to durations.
Behind a text on one line that has no token at its beginning and no name at its end, a chain succeeds just
where it is in that order and what comes first reads the text. A text read as an integer gives that integer,
or if it is not negative the duration of so many nanoseconds; a text read as a duration gives that. Any other
chain breaks, and the failure bears the first name that does not go with what stands before it: the text
cannot be read, the integer is negative, or an integer is to be made of a duration. -/
theorem resolve_chain (context : Context σ) {maxDepth : Nat} (outside : σ) (sound : Split.Stem s)
    (begins : ∀ resolver ∈ (resolvers : List (Resolver σ)), ∀ payload, s ≠ resolver.token ++ payload)
    (ends : ∀ name ∈ coercionNames, ∀ rest, rest ≠ "" → s ≠ rest ++ "::" ++ name) (full : chain ≠ [])
    (known : ∀ name ∈ chain, name ∈ coercionNames) (deep : 0 < maxDepth) :
    let raw := Split.text ⟨s, chain⟩
    let outcome := ((Tree.text raw).resolve registry context maxDepth outside).outcome
    (∀ v, outcome = .ok v ↔ ∃ i j, chain = inOrder i j ∧ Coerced s i j v) ∧
    ∀ f, outcome = .error f ↔ ∃ i j name after cause, chain = inOrder i j ++ name :: after ∧
      Breaks s i j name cause ∧ f = (cause.inCoercion name).inDirective raw := by
  intro raw outcome
  have run : outcome = (chain.foldlM applied (.text s)).mapError (Fault.inDirective raw) :=
    outcome_resolve_text sound begins ends full known deep
  constructor
  · intro v
    rw [run, ← chain_ok_iff full known]
    cases chain.foldlM applied (.text s) <;> simp [Except.mapError]
  · intro f
    rw [run]
    constructor
    · intro failed
      cases folded : chain.foldlM applied (.text s) with
      | ok v => simp [folded, Except.mapError] at failed
      | error g =>
        obtain ⟨i, j, name, after, cause, split, breaks, rfl⟩ := (chain_error_iff full known).mp folded
        rw [folded] at failed
        exact ⟨i, j, name, after, cause, split, breaks, (Except.error.inj failed).symm⟩
    · rintro ⟨i, j, name, after, cause, split, breaks, rfl⟩
      rw [(chain_error_iff full known).mpr ⟨i, j, name, after, cause, split, breaks, rfl⟩]
      rfl

/-- Nanoseconds become a duration, and there is no way back. -/
theorem resolve_chain_seconds :
    let outcome (raw : String) := ((Tree.text raw).resolve registry (.ofWorlds none) 1 {}).outcome
    outcome "1500000000::atoi::duration" = .ok (.duration ⟨1, 500000000, by decide, by decide⟩) ∧
      outcome "1500000000::atoi::duration::atoi" =
        .error (((Fault.typeCoercion "an integer" "duration").inCoercion integerName).inDirective
          "1500000000::atoi::duration::atoi") := by
  intro outcome
  have sound : Split.Stem "1500000000" := ⟨by decide, by decide⟩
  have begins : ∀ resolver ∈ (resolvers : List (Resolver World)), ∀ payload,
      "1500000000" ≠ resolver.token ++ payload :=
    (@Registry.resolver?_eq_none_iff World registry "1500000000").mp (by decide +kernel)
  have ends : ∀ name ∈ coercionNames, ∀ rest, rest ≠ "" → "1500000000" ≠ rest ++ "::" ++ name := by
    intro name _ rest _ same
    have colon : ':' ∈ "1500000000".toList := by simp [same]
    revert colon
    decide
  have coerced : Coerced "1500000000" 1 1 (.duration ⟨1, 500000000, by decide, by decide⟩) :=
    .nanoseconds (n := 1500000000) (by decide +kernel) (by decide) (by decide) (by decide)
  obtain ⟨done, _⟩ := resolve_chain (.ofWorlds none) {} sound begins ends
    (show [integerName, durationName] ≠ [] by decide) (by decide) Nat.one_pos
  obtain ⟨_, failed⟩ := resolve_chain (.ofWorlds none) {} sound begins ends
    (show [integerName, durationName, integerName] ≠ [] by decide) (by decide) Nat.one_pos
  exact ⟨(done _).mpr ⟨1, 1, rfl, coerced⟩,
    (failed _).mpr ⟨1, 1, integerName, [], _, rfl, .afterDuration coerced, rfl⟩⟩

end Directives.Builtin
