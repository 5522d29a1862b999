import Directives.Builtin
import Directives.Proofs.Failures
import Directives.Proofs.Spared

/-! Cancellation by the caller. From the moment on at which the token is cancelled a walk fetches nothing
more, and yet it ends as if it were not cancelled, unless it comes to a directive that calls for a
resolver. -/
namespace Directives

namespace Expansion
open Walk
variable {σ : Type} {Same : σ → σ → Prop} {registry free : Registry σ}
  {context freeContext : Context σ} {limit room : Nat} {raw : String} {t : Tree}

/-- What a walk has done at a moment from which on its token is cancelled: nothing yet, if it was cancelled
before; or the caller cancels it in the course of a directive's resolver or of one of its coercions, and
these have come to their end. -/
inductive CancelledAfter (registry : Registry σ) (context : Context σ) (limit : Nat) (t : Tree)
    (w : Walk σ) : List Entry → Prop
  | before : context.Raised w.outside → CancelledAfter registry context limit t w []
  | during {a : Arrival σ} {room : Nat} {passed later : List String} :
    Reaches registry context limit limit t w a → a.room = room + 1 →
    (registry.split a.raw).coercions = passed ++ later →
    ¬ context.Raised a.walk.outside →
    context.Raised
      (evaluate registry context ⟨(registry.split a.raw).stem, passed⟩ a.walk).state.outside →
    CancelledAfter registry context limit t w
      (a.trail ++ ⟨.directive a.raw (limit - a.room), a.walk.stack⟩ ::
        (evaluate registry context ⟨(registry.split a.raw).stem, passed⟩ a.walk).calls)

theorem evaluate_append (stem : String) (passed later : List String) :
    evaluate registry context ⟨stem, passed ++ later⟩ =
      evaluate registry context ⟨stem, passed⟩ >>= fun resolved =>
        coerce registry later resolved.value >>= fun value => pure { resolved with value } := by
  simp only [evaluate, coerce_append, bind_assoc, pure_bind]

/-- After some of its coercions, a directive goes on with the others. -/
theorem resumes_append {passed later : List String}
    (split : (registry.split raw).coercions = passed ++ later) (place : Fault → Fault)
    (next : Tree → Action σ Tree) (w : Walk σ) :
    (((expandDirective registry context limit (room + 1) raw).mapError place >>= next) w).Resumes
      [⟨.directive raw (limit - (room + 1)), w.stack⟩]
      (((evaluate registry context ⟨(registry.split raw).stem, passed⟩).mapError place >>= fun resolved =>
        (coerce registry later resolved.value >>= fun value =>
          within resolved.source (expandTree registry context limit room value)).mapError place >>=
            next) w) := by
  have whole : registry.split raw = ⟨(registry.split raw).stem, passed ++ later⟩ := by rw [← split]
  have parts : expandDirective registry context limit (room + 1) raw =
      note (.directive raw (limit - (room + 1))) >>= fun _ =>
        evaluate registry context ⟨(registry.split raw).stem, passed⟩ >>= fun resolved =>
          coerce registry later resolved.value >>= fun value =>
            within resolved.source (expandTree registry context limit room value) := by
    rw [expandDirective]
    conv_lhs => rw [whole, evaluate_append]
    simp only [bind_assoc, pure_bind]
    rfl
  rw [parts, note_mapError, bind_assoc, note_bind, Traced.mapError_bind, bind_assoc]
  exact ⟨rfl, rfl, fun _ => rfl⟩

/-- A directive in whose course the token is cancelled goes on abreast from then on. -/
theorem resumes_during (spared : Spared Same registry free context freeContext)
    {passed later : List String} (split : (registry.split raw).coercions = passed ++ later)
    {w' w : Walk σ} (beside : (alike Same).Beside w' w) (live : ¬ context.Raised w'.outside)
    (raised : context.Raised
      (evaluate registry context ⟨(registry.split raw).stem, passed⟩ w').state.outside)
    (fits : room ≤ limit) (place : Fault → Fault) (keeps : ∀ f, (place f).bare = f.bare)
    {next' next : Tree → Action σ Tree}
    (related : ∀ v, (sparing Same registry context limit True).Abreast (next' v) (next v)) :
    ∃ answer' answer,
      (((expandDirective registry context limit (room + 1) raw).mapError place >>= next') w').Resumes
        (⟨.directive raw (limit - (room + 1)), w'.stack⟩ ::
          (evaluate registry context ⟨(registry.split raw).stem, passed⟩ w').calls) answer' ∧
      (((expandDirective free freeContext limit (room + 1) raw).mapError place >>= next) w).Resumes
        (⟨.directive raw (limit - (room + 1)), w'.stack⟩ ::
          (evaluate registry context ⟨(registry.split raw).stem, passed⟩ w').calls) answer ∧
      ((sparing Same registry context limit True).Through answer' answer ∨
        (sparing Same registry context limit True).Cut answer' answer) := by
  have known : registry.Knows (passed ++ later) := split ▸ registry.knows_split raw
  have same := spared.through_evaluate (registry.split raw).stem known.before beside live
  have calls := same.calls
  rw [Comparison.map_shown ⟨rfl, rfl⟩] at calls
  have outcome :
      ((evaluate registry context ⟨(registry.split raw).stem, passed⟩).mapError place w').outcome =
        ((evaluate free freeContext ⟨(registry.split raw).stem, passed⟩).mapError place w).outcome :=
    congrArg (Except.mapError place) same.outcome
  have after : (sparing Same registry context limit True).Beside
      (evaluate registry context ⟨(registry.split raw).stem, passed⟩ w').state
      (evaluate free freeContext ⟨(registry.split raw).stem, passed⟩ w).state :=
    ⟨⟨same.state.outside, fun _ => raised⟩, same.state.stack⟩
  have rest (resolved : Resolved) : (sparing Same registry context limit True).Abreast
      (coerce registry later resolved.value >>= fun value =>
        within resolved.source (expandTree registry context limit room value))
      (coerce free later resolved.value >>= fun value =>
        within resolved.source (expandTree free freeContext limit room value)) :=
    (spared.abreast_coerce_sparing known.after resolved.value).bind fun value =>
      (spared.paired limit True).within fits resolved.source value
  obtain ⟨answer', answer, ends', ends, compared⟩ :=
    Comparison.Abreast.resumes outcome after fun resolved => ((rest resolved).mapError keeps).bind related
  have splitFree : (free.split raw).coercions = passed ++ later := by rw [spared.split, split]
  have begun : (((expandDirective free freeContext limit (room + 1) raw).mapError place >>= next)
      w).Resumes _ _ := resumes_append splitFree place next w
  have stack : w.stack = w'.stack := beside.stack.symm
  rw [spared.split, stack] at begun
  refine ⟨answer', answer, (resumes_append split place next' w').trans ends', ?_, compared⟩
  rw [calls]
  exact begun.trans ends

/-- From the moment on at which the token is cancelled, the walk goes on abreast of the one whose token
is not. -/
theorem CancelledAfter.resumes (spared : Spared Same registry free context freeContext) {s' s : σ}
    (same : Same s' s) {past : List Entry}
    (cancelled : CancelledAfter registry context limit t { outside := s' } past) :
    ∃ answer' answer,
      (t.walk registry context limit { outside := s' }).Resumes past answer' ∧
      (t.walk free freeContext limit { outside := s }).Resumes past answer ∧
      ((sparing Same registry context limit True).Through answer' answer ∨
        (sparing Same registry context limit True).Cut answer' answer) := by
  have after := spared.paired limit True
  cases cancelled with
  | before raised =>
    have abreast := after.expandTree (Nat.le_refl limit) t
    exact ⟨_, _, .refl _, .refl _, abreast ⟨⟨same, fun _ => raised⟩, rfl⟩⟩
  | @during a' room passed later reaches fits split live raised =>
    have popped : (sparing Same registry context limit True).Abreast pop pop := .pop rfl
    have ended : (sparing Same registry context limit True).Abreast (note (Event.expanded.deeper 0))
        (note .expanded) := .note after.closed
    have begins : (sparing Same registry context limit False).Beside { outside := s' } { outside := s } :=
      ⟨⟨same, False.elim⟩, rfl⟩
    obtain ⟨a, next', next, _, arrival, related, before', before⟩ :=
      reaches.abreast (spared.paired limit False) Comparison.Abreast.correspondence
        (fun room raw directive fits => after.expandDirective fits raw directive) ended popped
        (Nat.le_refl limit) begins
    have trail : a.trail = a'.trail := by
      rw [arrival.trail, Comparison.map_shown ⟨rfl, rfl⟩]
    have place : a.place = a'.place := by
      funext f
      rw [Arrival.place, ← arrival.raw, ← arrival.places, Arrival.place]
    have level : a.room = room + 1 := arrival.room.symm.trans fits
    have low := reaches.room_le
    rw [fits] at before' low ⊢
    rw [trail, place, level, ← arrival.raw] at before
    obtain ⟨answer', answer, rest', rest, compared⟩ := resumes_during spared split
      ⟨arrival.walk.outside.1, arrival.walk.stack⟩ live raised (Nat.le_of_succ_le low) a'.place
      (fun _ => rfl) related
    exact ⟨answer', answer, before'.trans rest', before.trans rest, compared⟩

/-- With room for it, a directive that calls for a resolver starts it, or the token is not live and the
directive does nothing. -/
theorem expandDirective_of_resolver {resolver : Resolver σ} {payload : String}
    (found : registry.resolver? (registry.split raw).stem = some (resolver, payload)) (w : Walk σ) :
    (∃ rest, (expandDirective registry context limit (room + 1) raw w).calls =
      ⟨.directive raw (limit - (room + 1)), w.stack⟩ ::
        ⟨.resolver resolver.token payload, w.stack⟩ :: rest) ∨
    ∃ f, (context.check w.outside).outcome = .error f ∧
      expandDirective registry context limit (room + 1) raw w =
        ⟨.error f, w, [⟨.directive raw (limit - (room + 1)), w.stack⟩]⟩ := by
  cases checked : (context.check w.outside).outcome with
  | ok =>
    left
    rw [expandDirective, note_bind, evaluate, found, bind_assoc]
    obtain ⟨rest, calls⟩ := Traced.bind_calls (fetch context (registry.split raw).stem
      (some (resolver, payload))) _ w
    rw [calls, fetch_of_ok checked, note_bind]
    exact ⟨_, rfl⟩
  | error f =>
    refine .inr ⟨f, rfl, ?_⟩
    have failed : evaluate registry context (registry.split raw) w = ⟨.error f, w, []⟩ :=
      evaluate_of_error found checked
    rw [expandDirective_of_error (by rw [failed]), failed]

/-- A directive that calls for a resolver starts it next, or the walk ends there because the token is not
live. -/
theorem Reaches.of_asks {w : Walk σ} {a : Arrival σ}
    (reaches : Reaches registry context limit limit t w a) {later : List Entry}
    (split : (expandTree registry context limit limit t w).calls =
      a.trail ++ ⟨.directive a.raw (limit - a.room), a.walk.stack⟩ :: later)
    (asks : (⟨.directive a.raw (limit - a.room), a.walk.stack⟩ : Entry).Asks registry limit) :
    ∃ resolver payload, registry.resolver? (registry.split a.raw).stem = some (resolver, payload) ∧
      ((∃ rest, later = ⟨.resolver resolver.token payload, a.walk.stack⟩ :: rest) ∨
        later = [] ∧ ∃ f, (context.check a.walk.outside).outcome = .error f ∧
          (expandTree registry context limit limit t w).outcome = .error (a.place f)) := by
  obtain ⟨shallow, called⟩ := asks
  obtain ⟨⟨resolver, payload⟩, found⟩ := Option.isSome_iff_exists.mp called
  refine ⟨resolver, payload, found, ?_⟩
  obtain ⟨rest, calls, fails⟩ := reaches.walk
  obtain ⟨trail, places, raw, room, inner⟩ := a
  cases room with
  | zero => exact absurd shallow (by simp)
  | succ room =>
    have calls := List.append_cancel_left (split.symm.trans calls)
    have starts : (∃ rest, (expandDirective registry context limit (room + 1) raw inner).calls =
        _ :: _ :: rest) ∨ _ := expandDirective_of_resolver found inner
    rcases starts with ⟨own, starts⟩ | ⟨f, checked, refused⟩
    · rw [starts] at calls
      exact .inl ⟨_, (List.cons.inj calls).2⟩
    · obtain ⟨rfl, failed⟩ := fails f (by rw [refused])
      rw [refused] at calls
      exact .inr ⟨(List.cons.inj calls).2, f, checked, failed⟩

theorem Reaches.spared (spared : Spared Same registry free context freeContext) {s' s : σ}
    (same : Same s' s) {a' : Arrival σ}
    (reaches : Reaches registry context limit limit t { outside := s' } a') :
    ∃ walk, Reaches free freeContext limit limit t { outside := s } { a' with walk } ∧
      walk.stack = a'.walk.stack ∧ Same a'.walk.outside walk.outside := by
  have begins : (sparing Same registry context limit False).Beside { outside := s' }
      { outside := s } := ⟨⟨same, False.elim⟩, rfl⟩
  obtain ⟨⟨trail, places, raw, room, walk⟩, reaches, arrival⟩ :=
    reaches.beside (spared.paired limit False) (Nat.le_refl limit) begins
  obtain ⟨shown, rfl, rfl, rfl, beside⟩ := arrival
  rw [Comparison.map_shown ⟨rfl, rfl⟩] at shown
  obtain rfl : a'.trail = trail := shown
  exact ⟨walk, reaches, beside.stack.symm, beside.outside.1⟩

theorem Arrival.place_cancelled (a : Arrival σ) (reason : String) :
    a.place (.cancelled reason) =
      { Fault.cancelled reason with location := a.places.flatten, directive := a.raw } := by
  simp [place, Fault.inDirective, Fault.beneath, Fault.cancelled]

/-- A walk is cut short where the other starts a resolver, or where that one's deadline has come. -/
theorem cut_at_directive (spared : Spared Same registry free context freeContext) {s' s : σ}
    (same : Same s' s) {past after : List Entry} {e : Entry} {f : Fault}
    (asks : e.Asks registry limit)
    (calls' : (t.walk registry context limit { outside := s' }).calls = past ++ [e])
    (calls : (t.walk free freeContext limit { outside := s }).calls = past ++ e :: after)
    (failed : (t.walk registry context limit { outside := s' }).outcome = .error f)
    (cause : f.bare = .cancelled "cancelled by caller") :
    ∃ a, Reaches registry context limit limit t { outside := s' } a ∧ a.trail = past ∧
      e = ⟨.directive a.raw (limit - a.room), a.walk.stack⟩ ∧
      f = a.place (.cancelled "cancelled by caller") ∧
      ∃ resolver payload, free.resolver? (free.split a.raw).stem = some (resolver, payload) ∧
        ((∃ later, after = ⟨.resolver resolver.token payload, a.walk.stack⟩ :: later) ∨
          after = [] ∧ (t.walk free freeContext limit { outside := s }).outcome =
            .error (a.place (.cancelled "deadline exceeded"))) := by
  obtain ⟨raw, depth, stack, rfl⟩ := asks.eq_directive
  obtain ⟨a, reaches', rfl, rfl, rfl, rfl⟩ := exists_reaches calls'
  obtain ⟨walk, reaches, stack, outside⟩ := reaches'.spared spared same
  rw [← stack] at calls
  have refused : f = a.place (.cancelled "cancelled by caller") := by
    obtain ⟨_, _, _, ⟨_, starts⟩ | ⟨_, g, checked, ends⟩⟩ := reaches'.of_asks calls' asks
    · cases starts
    obtain rfl : f = a.place g := Except.error.inj (failed.symm.trans ends)
    obtain ⟨reason, _, rfl⟩ := Cancel.Token.check_error checked
    have known : Fault.cancelled reason.message = .cancelled "cancelled by caller" := cause
    rw [known]
  obtain ⟨resolver, payload, found, starts⟩ :=
    reaches.of_asks calls (by rw [stack]; exact spared.asks asks)
  refine ⟨a, reaches', rfl, rfl, refused, resolver, payload, found, ?_⟩
  rcases starts with ⟨later, starts⟩ | ⟨none, g, checked, ends⟩
  · exact .inl ⟨later, by rw [starts, stack]⟩
  · obtain rfl := Context.cancelled_of_not_raised (spared.never outside) checked
    exact .inr ⟨none, ends⟩

/-- Cancellation by the caller stops all further access and nothing else. From the moment on at which the
token is cancelled, the walk starts no resolver, and only coercions ask for anything outside. If the walk
under a token that is not cancelled comes to no further directive that calls for a resolver, both end in
the same way. If it does, the cancelled walk ends at the first such directive, as cancelled by the caller.
There the other starts the resolver, or its deadline has come, and it ends there as well. -/
theorem cancellation_stops_access (spared : Spared Same registry free context freeContext)
    (maxDepth : Nat) (t : Tree) {s' s : σ} (same : Same s' s) {past : List Entry}
    (cancelled : CancelledAfter registry context maxDepth t { outside := s' } past) :
    let stopped := t.walk registry context maxDepth { outside := s' }
    let unstopped := t.walk free freeContext maxDepth { outside := s }
    ∃ rest rest', stopped.calls = past ++ rest ∧ unstopped.calls = past ++ rest' ∧
      (∀ e ∈ rest, ¬ e.Fetches registry) ∧
      ((∀ e ∈ rest', ¬ e.Asks registry maxDepth) →
        stopped.outcome = unstopped.outcome ∧ rest = rest') ∧
      ((∃ e ∈ rest', e.Asks registry maxDepth) →
        ∃ a before e after,
          Reaches registry context maxDepth maxDepth t { outside := s' } a ∧
          a.trail = past ++ before ∧ e = ⟨.directive a.raw (maxDepth - a.room), a.walk.stack⟩ ∧
          rest = before ++ [e] ∧ rest' = before ++ e :: after ∧
          (∀ e ∈ before, ¬ e.Asks registry maxDepth) ∧ e.Asks registry maxDepth ∧
          stopped.outcome = .error { Fault.cancelled "cancelled by caller" with
            location := a.places.flatten
            directive := a.raw } ∧
          ∃ resolver payload, free.resolver? (free.split a.raw).stem = some (resolver, payload) ∧
            ((∃ later, after = ⟨.resolver resolver.token payload, a.walk.stack⟩ :: later) ∨
              after = [] ∧ unstopped.outcome = .error { Fault.cancelled "deadline exceeded" with
                location := a.places.flatten
                directive := a.raw })) := by
  intro stopped unstopped
  obtain ⟨answer', answer, resumes', resumes, compared⟩ := cancelled.resumes spared same
  have shown := (sparing Same registry context maxDepth True).map_shown ⟨rfl, rfl⟩
  refine ⟨answer'.calls, answer.calls, resumes'.calls, resumes.calls, ?_⟩
  rcases compared with through | ⟨before, e, after, f, failed, ⟨asks, cause⟩, calls', calls, quiet⟩
  · have calls : answer'.calls = answer.calls := by rw [through.calls, shown]
    refine ⟨fun e member => (through.quiet e (calls ▸ member) trivial).2, fun _ => ⟨?_, calls⟩, ?_⟩
    · exact resumes'.outcome.trans (through.outcome.trans resumes.outcome.symm)
    · rintro ⟨e, member, asks⟩
      exact absurd asks (through.quiet e member trivial).1
  · have asks : e.Asks registry maxDepth := asks
    rw [shown] at calls'
    have own : ∀ e ∈ answer'.calls, ¬ e.Fetches registry := by
      rw [calls']
      refine List.forall_mem_append.mpr ⟨fun e member => (quiet e member trivial).2, ?_⟩
      exact List.forall_mem_singleton.mpr asks.not_fetches
    have failed : stopped.outcome = .error f := resumes'.outcome.trans failed
    refine ⟨own, fun none => absurd asks (none e (by rw [calls]; simp)), fun _ => ?_⟩
    obtain ⟨a, reaches, arrived, itself, refused, resolver, payload, found, starts⟩ :=
      cut_at_directive spared same asks
        (by rw [resumes'.calls, calls', List.append_assoc])
        (by rw [resumes.calls, calls, List.append_assoc]) failed cause
    refine ⟨a, before, e, after, reaches, arrived, itself, calls', calls,
      fun e member => (quiet e member trivial).1, asks, ?_, resolver, payload, found, ?_⟩
    · rw [failed, refused, Arrival.place_cancelled]
    · rwa [Arrival.place_cancelled] at starts

/-- A store in which the caller cancels the token during every read. -/
def cancelling : SecretStore Cancel.Moment where
  read token _ _ := do
    Run.change (·.raise token.family)
    return [("p", .text "5::atoi"), ("q", .text "ENV->A"), ("r", .text "plain")]

def oneVariable : Context Cancel.Moment where
  world _ := { environment := ⟨[Text.toUtf8 "A=v"]⟩ }
  moment := id
  token := { family := 0 }
  secrets := some cancelling

theorem cancellation_stops_access_secret :
    let registry : Registry Cancel.Moment := Builtin.registry
    let t : Tree := .mapping [("a", .text "VAULT->x"), ("b", .text "ENV->A")]
    let past : List Entry := [⟨.directive "VAULT->x" 0, []⟩, ⟨.resolver "VAULT->" "x", []⟩,
      ⟨.lookup (.secret none "x"), []⟩]
    let stopped := t.walk registry oneVariable 32 { outside := {} }
    let unstopped := t.walk registry oneVariable.uncancelled 32 { outside := {} }
    Spared (· = ·) registry registry oneVariable oneVariable.uncancelled ∧
      CancelledAfter registry oneVariable 32 t { outside := {} } past ∧
      unstopped.outcome = .ok (.mapping [("a", .mapping [("p", .integer 5), ("q", .text "v"),
        ("r", .text "plain")]), ("b", .text "v")]) ∧
      ∃ rest, stopped.calls = past ++ rest ∧ (∀ e ∈ rest, ¬ e.Fetches registry) ∧
        ∃ a, Reaches registry oneVariable 32 32 t { outside := {} } a ∧
          stopped.outcome = .error { Fault.cancelled "cancelled by caller" with
            location := a.places.flatten
            directive := a.raw } := by
  intro registry t past stopped unstopped
  have spared := Builtin.spared oneVariable
  have reaches : Reaches registry oneVariable 32 32 t { outside := {} }
      ⟨[], [[.key "a"]], "VAULT->x", 32, { outside := {} }⟩ :=
    .here ⟨[], [([.key "b"], "ENV->A")], [], rfl, rfl⟩ (by decide +kernel)
  have elapsed : past = [] ++ ⟨.directive "VAULT->x" 0, []⟩ ::
      (evaluate registry oneVariable ⟨(registry.split "VAULT->x").stem, []⟩ { outside := {} }).calls := by
    decide +kernel
  have split : (registry.split "VAULT->x").coercions = [] ++ [] := by decide +kernel
  have raised : oneVariable.Raised (evaluate registry oneVariable
      ⟨(registry.split "VAULT->x").stem, []⟩ { outside := {} }).state.outside := by
    decide +kernel
  have cancelled : CancelledAfter registry oneVariable 32 t { outside := {} } past := by
    rw [elapsed]
    exact .during reaches rfl split (by decide +kernel) raised
  obtain ⟨rest, rest', calls, calls', quiet, _, ends⟩ :=
    cancellation_stops_access spared 32 t rfl cancelled
  have later : rest' = unstopped.calls.drop 3 := by rw [calls']; rfl
  have asked : (⟨.directive "ENV->A" 1, ["vault:x"]⟩ : Entry) ∈ rest' := by
    rw [later]
    decide +kernel
  have asks : Entry.Asks registry 32 ⟨.directive "ENV->A" 1, ["vault:x"]⟩ :=
    ⟨by decide, by decide +kernel⟩
  obtain ⟨a, _, _, _, reaches, _, _, _, _, _, _, refused, _⟩ := ends ⟨_, asked, asks⟩
  exact ⟨spared, cancelled, by decide +kernel, rest, calls, quiet, a, reaches, refused⟩

/-- A resolver that goes on to read a secret after the caller has cancelled the token. -/
def heedless : Resolver Cancel.Moment where
  token := "GO->"
  resolve context path := do
    Run.change (·.raise context.token.family)
    match context.secrets with
    | none => return ⟨.null, none⟩
    | some store =>
      Run.record (.secret none path)
      return ⟨.mapping (← store.read context.token path none), none⟩

/-- A store that tells whether the token was cancelled when it was read. -/
def telling : SecretStore Cancel.Moment where
  read token _ _ := Run.read fun moment =>
    [("cancelled", .bool (moment.raised.contains token.family))]

/-- A walk whose deadline has come ends for that reason before it starts a resolver, and if it is
cancelled as well, for the other. The resolver in whose course the token is cancelled may read secrets. -/
theorem cancellation_not_decisive :
    let overdue : Context Cancel.Moment :=
      { oneVariable with token := { family := 0, deadline := some 0 } }
    let stopped := (Tree.text "ENV->A").walk Builtin.registry overdue 32
      { outside := { raised := [0] } }
    let unstopped := (Tree.text "ENV->A").walk Builtin.registry overdue 32 { outside := {} }
    let reading : Context Cancel.Moment := { oneVariable with secrets := some telling }
    let read := (Tree.text "GO->x").walk ⟨[heedless], [], by simp, by simp⟩ reading 32 { outside := {} }
    overdue.Raised { raised := [0] } ∧ ¬ overdue.Raised {} ∧
      unstopped.calls = [⟨.directive "ENV->A" 0, []⟩] ∧
      unstopped.outcome =
        .error { Fault.cancelled "deadline exceeded" with directive := "ENV->A" } ∧
      stopped.outcome =
        .error { Fault.cancelled "cancelled by caller" with directive := "ENV->A" } ∧
      stopped.outcome ≠ unstopped.outcome ∧
      ¬ reading.Raised {} ∧ ⟨.lookup (.secret none "x"), []⟩ ∈ read.calls ∧
      read.outcome = .ok (.mapping [("cancelled", .bool true)]) := by
  decide +kernel

end Expansion
end Directives
