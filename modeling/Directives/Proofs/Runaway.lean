import Mathlib.Data.Set.Card
import Directives.Proofs.Failures
import Directives.Proofs.Stability

/-! Runaway expansion with the resolvers and coercions that every program has. A value that may still
hold directives came from a variable, a file or a secret, so its source goes onto the stack. The stack
holds no source twice and cannot outgrow the sources that there are. -/
namespace Directives

namespace Builtin
open Expansion
variable {σ : Type} {context : Context σ} {S : σ → Prop} {world : World} {limit : Nat}

/-- The sources that there are: of the variables that are set to something, of the files that can be
read, by their paths without links, and of the secrets that the store gives in a state of the set. -/
inductive IsSource (context : Context σ) (S : σ → Prop) (world : World) : String → Prop
  | environment {name value : String} : world.environment.text? name = some value → value ≠ "" →
    IsSource context S world (variableSource name)
  | file {path canonical : String} {t : Tree} : Source.read world.files path = .ok t →
    world.files.canonical? path = some canonical →
    IsSource context S world ("file:" ++ canonical)
  | secret {store : SecretStore σ} {payload : String} {s : σ} {fields : List (String × Tree)} :
    context.secrets = some store → S s →
    (store.read context.token (SecretRef.ofText payload).path (SecretRef.ofText payload).mount
      s).outcome = .ok fields →
    IsSource context S world (SecretRef.ofText payload).source

/-- In all states of the set the world is this one, and reads from the store do not lead out of it. -/
structure Still (context : Context σ) (S : σ → Prop) (world : World) : Prop where
  world : ∀ {s}, S s → context.world s = world
  stays : ∀ {store}, context.secrets = some store → ∀ path mount {s}, S s →
    S (store.read context.token path mount s).state

/-- A value that holds no directive, or that has a source. -/
def Sourced (context : Context σ) (S : σ → Prop) (world : World) (resolved : Resolved) : Prop :=
  Settled (registry : Registry σ) resolved.value ∨
    ∃ source, resolved.source = some source ∧ IsSource context S world source

theorem settled_of_texts {t : Tree} (none : t.texts = []) : Settled (registry : Registry σ) t := by
  intro text member
  rw [none] at member
  cases member

theorem settled_empty : Settled (registry : Registry σ) (.text "") := by
  have parts : (registry : Registry σ).split "" = ⟨"", []⟩ := by
    have closed : Split.ofText [integerName, durationName] "" = ⟨"", []⟩ := by decide +kernel
    exact closed
  have unmatched : (registry : Registry σ).resolver? "" = none := by
    have closed : ∀ token ∈ [envToken, optionalEnvToken, fileToken, optionalFileToken, secretToken],
        Registry.payload? token "" = none := by decide +kernel
    cases found : (registry : Registry σ).resolver? "" with
    | none => rfl
    | some pair =>
      obtain ⟨member, matched⟩ := Registry.mem_of_resolver? found
      rw [closed pair.1.token (List.mem_map_of_mem member)] at matched
      cases matched
  intro text member
  obtain rfl := List.mem_singleton.mp member
  simp [isPlain, parts, unmatched]

theorem ensures_check : Traced.Ensures S (fun _ => True) (fun _ => True)
    (fun _ => True) context.check where
  stays h := h
  calls _ _ member := nomatch member
  failure _ _ := trivial
  result _ _ := trivial

theorem ensures_lookUp (still : Still context S world) (name : String) :
    Traced.Ensures S (fun _ => True) (fun _ => True)
      (fun value => value = world.environment.text? name) (lookUp context name) :=
  (Traced.Ensures.record trivial).bind fun _ _ => .read fun h => by rw [still.world h]

theorem ensures_readFile (still : Still context S world) (path : String) :
    Traced.Ensures S (fun _ => True) (fun _ => True)
      (fun answer => answer = (Source.read world.files path, fileSource world.files path))
      (readFile context path) :=
  ensures_check.bind fun _ _ => (Traced.Ensures.record trivial).bind fun _ _ =>
    .read fun h => by rw [still.world h]

theorem sourced_file {path : String} {t : Tree} (done : Source.read world.files path = .ok t) :
    Sourced context S world ⟨t, some (fileSource world.files path)⟩ := by
  obtain ⟨_, _, _, found⟩ := Source.canonical?_of_read done
  refine .inr ⟨_, rfl, ?_⟩
  rw [fileSource, found]
  exact .file done found

/-- In the empty world there are the stored secrets alone. -/
theorem secret_of_isSource {source : String} (is : IsSource context S {} source) :
    ∃ store payload s fields, context.secrets = some store ∧ S s ∧
      (store.read context.token (SecretRef.ofText payload).path (SecretRef.ofText payload).mount
        s).outcome = .ok fields ∧ source = (SecretRef.ofText payload).source := by
  cases is with
  | environment found => simp [Environment.text?, Environment.octets?] at found
  | file done =>
    obtain ⟨_, _, stands, _⟩ := Source.canonical?_of_read done
    simp [Files.node?] at stands
  | secret found h done => exact ⟨_, _, _, _, found, h, done, rfl⟩

/-- What a resolver fetches has a source, unless it holds no directive. -/
theorem ensures_resolve (still : Still context S world) {resolver : Resolver σ}
    (member : resolver ∈ resolvers) (payload : String) :
    Traced.Ensures S (fun _ => True) (fun _ => True) (Sourced context S world)
      (resolver.resolve context payload) := by
  simp only [resolvers, List.mem_cons, List.not_mem_nil, or_false] at member
  rcases member with rfl | rfl | rfl | rfl | rfl
  · refine (ensures_lookUp still payload).bind fun value found => ?_
    cases value with
    | none => exact .fail trivial
    | some value =>
      dsimp only
      split
      · exact .fail trivial
      · next full => exact .pure (.inr ⟨_, rfl, .environment found.symm (by simpa using full)⟩)
  · refine (ensures_lookUp still payload).bind fun value found => .pure ?_
    cases value with
    | none => exact .inl settled_empty
    | some value =>
      by_cases empty : value = ""
      · subst empty
        exact .inl settled_empty
      · exact .inr ⟨_, rfl, .environment found.symm empty⟩
  · refine (ensures_readFile still payload).bind fun answer found => ?_
    split
    · next value source =>
      obtain ⟨done, rfl⟩ := Prod.mk.inj found
      exact .pure (sourced_file done.symm)
    · exact .fail trivial
  · refine (ensures_readFile still payload).bind fun answer found => ?_
    split
    · next value source =>
      obtain ⟨done, rfl⟩ := Prod.mk.inj found
      exact .pure (sourced_file done.symm)
    · split
      · exact .pure (.inl (settled_of_texts rfl))
      · exact .fail trivial
  · simp only [secretResolver]
    split
    · exact .fail trivial
    · next store found =>
      refine ensures_check.bind fun _ _ => (Traced.Ensures.record trivial).bind fun _ _ => ?_
      have fetched : Traced.Ensures S (fun _ => True) (fun _ => True)
          (fun fields => Sourced context S world
            ⟨.mapping fields, some (SecretRef.ofText payload).source⟩)
          (store.read context.token (SecretRef.ofText payload).path
            (SecretRef.ofText payload).mount) := {
        stays h := still.stays found _ _ h
        calls _ _ _ := trivial
        failure _ _ := trivial
        result h done := .inr ⟨_, rfl, .secret found h done⟩ }
      exact fetched.bind fun _ sourced => .pure sourced

/-- What a coercion gives holds no directive. -/
theorem ensures_apply {coercion : Coercion σ} (member : coercion ∈ coercions) (t : Tree) :
    Traced.Ensures S (fun _ => True) (fun _ => True) (fun v => v.texts = [])
      (coercion.apply t) := by
  simp only [coercions, List.mem_cons, List.not_mem_nil, or_false] at member
  rcases member with rfl | rfl
  · refine .ofExcept (fun _ _ => trivial) fun v done => ?_
    simp only [toInteger] at done
    split at done
    · cases done
      rfl
    · split at done <;> cases done
      rfl
    · cases done
  · refine .ofExcept (fun _ _ => trivial) fun v done => ?_
    simp only [toDuration] at done
    split at done
    · cases done
      rfl
    · split at done <;> cases done
      rfl
    · split at done <;> cases done
      rfl
    · cases done

end Builtin

namespace Expansion
open Walk Builtin
variable {σ α : Type} {context : Context σ} {S : σ → Prop} {world : World} {limit room : Nat}
  {stack : List String}

/-- A directive stands as deep as the stack is high, and the stack holds distinct sources that there
are. -/
def Accumulates (context : Context σ) (S : σ → Prop) (world : World) (e : Entry) : Prop :=
  ∀ raw depth, e.event = .directive raw depth →
    depth = e.stack.length ∧ e.stack.Nodup ∧ ∀ source ∈ e.stack, IsSource context S world source

/-- With this stack an action takes up sources one by one. -/
abbrev Contained (context : Context σ) (S : σ → Prop) (world : World) (stack : List String)
    (given : α → Prop) (m : Action σ α) : Prop :=
  Traced.Ensures (At S stack) (Accumulates context S world) (fun _ => True) given m

theorem contained_note {event : Event} (quiet : ∀ raw depth, event ≠ .directive raw depth) :
    Contained context S world stack (fun _ => True) (note event) :=
  ensures_note fun raw depth same => absurd same (quiet raw depth)

theorem contained_lift {m : Run σ Fault α} {given : α → Prop}
    (ensures : Traced.Ensures S (fun _ => True) (fun _ => True) given m) :
    Contained context S world stack given (lift m) :=
  ensures_lift (fun _ _ _ same => nomatch same) ensures

theorem contained_coerce (names : List String) (value : Tree)
    (known : (registry : Registry σ).Knows names) :
    Contained context S world stack (fun v => names = [] ∧ v = value ∨ v.texts = [])
      (coerce registry names value) := by
  induction names generalizing value with
  | nil => exact .pure (.inl ⟨rfl, rfl⟩)
  | cons name rest ih =>
    obtain ⟨coercion, member, rfl, found⟩ := known name List.mem_cons_self
    have applied : Contained context S world stack (fun v => v.texts = [])
        ((lift (coercion.apply value)).mapError (Fault.inCoercion coercion.name)) :=
      (contained_lift (ensures_apply member value)).mapError fun _ => id
    rw [coerce, found]
    refine (contained_note (by simp)).bind fun _ _ => applied.bind fun v bare => ?_
    refine (ih v fun name member => known name (List.mem_cons_of_mem _ member)).mono fun v' => ?_
    rintro (⟨_, rfl⟩ | none)
    · exact .inr bare
    · exact .inr none

/-- What a directive's resolver and coercions give has a source, unless it holds no directive. -/
theorem contained_evaluate (still : Still context S world) {raw : String}
    (directive : ¬ isPlain (registry : Registry σ) raw = true) :
    Contained context S world stack (Sourced context S world)
      (evaluate registry context ((registry : Registry σ).split raw)) := by
  have fetched : Contained context S world stack
      (fun resolved => Sourced context S world resolved ∨
        ((registry : Registry σ).split raw).coercions ≠ [])
      (fetch context ((registry : Registry σ).split raw).stem
        (registry.resolver? ((registry : Registry σ).split raw).stem)) := by
    cases found : (registry : Registry σ).resolver? ((registry : Registry σ).split raw).stem with
    | none =>
      exact .pure (.inr fun empty => directive (by simp [isPlain, found, empty]))
    | some pair =>
      have member : pair.1 ∈ resolvers := (Registry.mem_of_resolver? found).1
      exact (contained_lift ensures_check).bind fun _ _ =>
        (contained_note (by simp)).bind fun _ _ =>
          (contained_lift (ensures_resolve still member pair.2)).mono fun _ => .inl
  refine fetched.bind fun resolved sourced => ?_
  refine (contained_coerce _ resolved.value (registry.knows_split raw)).bind
    fun v coerced => .pure ?_
  rcases coerced with ⟨empty, rfl⟩ | none
  · exact sourced.resolve_right (not_not_intro empty)
  · exact .inl (settled_of_texts none)

theorem contained_within {source : Option String} {inner : Action σ α}
    (outside : source = none →
      Contained context S world stack (fun _ => True) inner)
    (inside : ∀ name, source = some name → name ∉ stack →
      Contained context S world (stack ++ [name]) (fun _ => True) inner) :
    Contained context S world stack (fun _ => True) (within source inner) := by
  refine (contained_note (by simp)).bind fun _ _ => ?_
  cases source with
  | none => exact ensures_complete (fun _ _ same => by cases same) (outside rfl)
  | some name =>
    exact ensures_guarded (fun _ => trivial) fun new =>
      ensures_complete (fun _ _ same => by cases same) (inside name rfl new)

theorem length_le_encard (nodup : stack.Nodup) (are : ∀ source ∈ stack, IsSource context S world source) :
    stack.length ≤ {source | IsSource context S world source}.encard := by
  have subset : (stack.toFinset : Set String) ⊆ {source | IsSource context S world source} :=
    fun source member => are source (List.mem_toFinset.mp member)
  have bounded := Set.encard_le_encard subset
  rwa [Set.encard_coe_eq_coe_finsetCard, List.toFinset_card_of_nodup nodup] at bounded

/-- Wherever the stack holds distinct sources that there are, and stands as high as directives are deep,
so it does at every directive further in. -/
theorem contained_expandTree (still : Still context S world) (nodup : stack.Nodup)
    (are : ∀ source ∈ stack, IsSource context S world source) (deep : stack.length + room = limit)
    (t : Tree) :
    Contained context S world stack (fun _ => True)
      (expandTree registry context limit room t) := by
  have parts (stack : List String) : Tree.Compositional (fun {α} (m : Action σ α) =>
      Contained context S world stack (fun _ => True) m) :=
    Traced.Ensures.compositional fun _ => id
  -- A value either is settled, or its source makes the stack higher by one.
  induction room generalizing stack t with
  | zero =>
    refine (parts stack).expand (fun raw _ => ?_) t
    have noted : Contained context S world stack (fun _ => True) (note (.directive raw limit)) := by
      refine ensures_note fun _ _ same => ?_
      cases same
      exact ⟨deep.symm, nodup, are⟩
    exact noted.bind fun _ _ => .fail trivial
  | succ room ih =>
    refine (parts stack).expand (fun raw directive => ?_) t
    have depth : limit - (room + 1) = stack.length := by omega
    have noted : Contained context S world stack (fun _ => True)
        (note (.directive raw (limit - (room + 1)))) := by
      refine ensures_note fun _ _ same => ?_
      cases same
      exact ⟨depth, nodup, are⟩
    refine noted.bind fun _ _ => (contained_evaluate still directive).bind fun resolved sourced => ?_
    rcases sourced with settled | ⟨source, from_, is⟩
    · have kept : resolved.value.visit
          (expandText registry (expandDirective registry context limit room)) =
            pure resolved.value := settled.expandTree
      rw [kept]
      exact contained_within (fun _ => .pure trivial) fun _ _ _ => .pure trivial
    · refine contained_within (fun none => ?_) fun name same new => ?_
      · rw [from_] at none
        cases none
      · obtain rfl := Option.some.inj (from_.symm.trans same)
        refine ih ?_ ?_ ?_ resolved.value
        · exact List.nodup_append_comm.mp (List.nodup_cons.mpr ⟨new, nodup⟩)
        · intro other member
          rcases List.mem_append.mp member with member | member
          · exact are other member
          · obtain rfl := List.mem_singleton.mp member
            exact is
        · rw [List.length_append, List.length_singleton]
          omega

section
variable {raw payload : String} {w : Walk σ} {coercion : Option String} {cause : Fault} {depth : Nat}
  {store : SecretStore σ}

/-- Where directives nest too deep there is no room, or the secret store says so as it is asked. -/
theorem Refuses.of_depthExceeded
    (refuses : Refuses registry context limit room raw w coercion cause)
    (deep : cause.kind = .depthExceeded depth) :
    room = 0 ∨ coercion = none ∧ ∃ payload store,
      (registry : Registry σ).resolver? ((registry : Registry σ).split raw).stem =
        some (secretResolver, payload) ∧
      context.secrets = some store ∧ (context.check w.outside).outcome = .ok () ∧
      (store.read context.token (SecretRef.ofText payload).path (SecretRef.ofText payload).mount
        w.outside).outcome = .error cause := by
  cases refuses with
  | depth => exact .inl rfl
  | cycle => cases deep
  | fetch failed =>
    rcases fetch_error failed with ⟨reason, rfl⟩ | ⟨resolver, payload, found, refused⟩
    · cases deep
    · cases reports_of_resolve (Registry.mem_of_resolver? found).1 refused with
      | missing | file | noStore | ended => cases deep
      | store same attached live answered =>
        subst same
        exact .inr ⟨rfl, payload, _, found, attached, live, answered⟩
  | coercion _ _ _ found refused =>
    cases unfit_of_apply (List.mem_of_find?_eq_some found) refused <;> cases deep

/-- A read that the store refuses is the last thing that its directive does. -/
theorem expandDirective_of_refused
    (found : (registry : Registry σ).resolver? ((registry : Registry σ).split raw).stem =
      some (secretResolver, payload))
    (attached : context.secrets = some store) (live : (context.check w.outside).outcome = .ok ())
    (refused : (store.read context.token (SecretRef.ofText payload).path
      (SecretRef.ofText payload).mount w.outside).outcome = .error cause) :
    let secret := SecretRef.ofText payload
    let read := store.read context.token secret.path secret.mount w.outside
    (expandDirective registry context limit (room + 1) raw w).calls =
      [⟨.directive raw (limit - (room + 1)), w.stack⟩, ⟨.resolver secretToken payload, w.stack⟩,
        ⟨.lookup (.secret secret.mount secret.path), w.stack⟩] ++
        read.calls.map fun call => ⟨.lookup call, w.stack⟩ := by
  intro secret read
  have fetched := fetch_secret attached ((registry : Registry σ).split raw).stem payload live
  have failed : (fetch context ((registry : Registry σ).split raw).stem
      (some (secretResolver, payload)) w).outcome = .error cause := by
    rw [fetched, refused]
    rfl
  have evaluated := failed
  rw [← found] at evaluated
  rw [expandDirective_of_error (f := cause) (by rw [evaluate, Traced.bind_of_error evaluated]),
    evaluate, Traced.bind_of_error evaluated, found, fetched]
  rfl

end

/-- With what every program has, runaway expansion in a world that holds still ends as a cycle. A
directive stands as deep as the stack is high, and the stack holds distinct sources of variables that
are set to something, of readable files and of stored secrets. So with a limit above the number of
these sources, directives nest too deep only if the secret store says so: its answer to the last read
of the run is handed on, placed at the directive for this secret. -/
theorem runaway_contained (still : Still context S world) {s : σ} (h : S s) (maxDepth : Nat)
    (t : Tree) :
    (∀ e ∈ (t.walk registry context maxDepth { outside := s }).calls,
      ∀ raw depth, e.event = .directive raw depth →
        depth = e.stack.length ∧ e.stack.Nodup ∧
          ∀ source ∈ e.stack, IsSource context S world source) ∧
    ({source | IsSource context S world source}.encard < maxDepth → ∀ f depth,
      (t.resolve registry context maxDepth s).outcome = .error f → f.kind = .depthExceeded depth →
      ∃ a payload store g, Reaches registry context maxDepth maxDepth t { outside := s } a ∧
        (registry : Registry σ).resolver? ((registry : Registry σ).split a.raw).stem =
          some (secretResolver, payload) ∧
        context.secrets = some store ∧
        let secret := SecretRef.ofText payload
        let read := store.read context.token secret.path secret.mount a.walk.outside
        read.outcome = .error g ∧ g.kind = .depthExceeded depth ∧ f = a.place g ∧
        (t.walk registry context maxDepth { outside := s }).calls = a.trail ++
          [⟨.directive a.raw (maxDepth - a.room), a.walk.stack⟩,
            ⟨.resolver secretToken payload, a.walk.stack⟩,
            ⟨.lookup (.secret secret.mount secret.path), a.walk.stack⟩] ++
          read.calls.map fun call => ⟨.lookup call, a.walk.stack⟩) := by
  have contained : Contained context S world [] (fun _ => True) (t.walk registry context maxDepth) :=
    contained_expandTree still List.nodup_nil (by simp) (Nat.zero_add _) t
  have start : At S [] { outside := s } := ⟨h, rfl⟩
  refine ⟨fun e member => contained.calls start e member, fun few f depth failed kind => ?_⟩
  obtain ⟨a, coercion, cause, reaches, refuses, same, alike⟩ := exists_cause failed
  have deep : cause.kind = .depthExceeded depth := alike.symm.trans kind
  have calls := (reaches.failure refuses).2
  obtain ⟨trail, places, raw, room, inner⟩ := a
  cases room with
  | zero =>
    -- Without room the stack would hold as many sources as the limit allows.
    have here : (⟨.directive raw maxDepth, inner.stack⟩ : Entry) ∈
        (t.walk registry context maxDepth { outside := s }).calls := by
      rw [Tree.walk, calls]
      exact List.mem_append_right _ List.mem_cons_self
    obtain ⟨high, nodup, are⟩ := contained.calls start _ here raw maxDepth rfl
    have many := length_le_encard nodup are
    rw [← high] at many
    exact absurd many (not_le_of_gt few)
  | succ room =>
    obtain ⟨rfl, payload, store, found, attached, live, refused⟩ :=
      (refuses.of_depthExceeded deep).resolve_left (Nat.succ_ne_zero room)
    refine ⟨_, payload, store, cause, reaches, found, attached, refused, deep, same, ?_⟩
    rw [Tree.walk, calls, expandDirective_of_refused found attached live refused, List.append_assoc]

/-- A store with one secret, which holds a reference to itself. -/
def selfReference : SecretStore World where
  read _ path mount :=
    if path = "x" ∧ mount = none then pure [("again", .text "VAULT->x")]
    else Traced.fail (.access path "404 Not Found")

theorem runaway_contained_selfReference :
    let context := Context.ofWorlds (some selfReference)
    let walked := (Tree.text "VAULT->x").resolve registry context 2 {}
    Still context (· = {}) {} ∧
      {source | IsSource context (· = {}) {} source}.encard < (2 : Nat) ∧
      (∀ f depth, walked.outcome = .error f → f.kind ≠ .depthExceeded depth) ∧
      walked.outcome = .error (((Fault.circularReference ["vault:x", "vault:x"]).inDirective
        "VAULT->x").under (.key "again")) := by
  intro context walked
  have still : Still context (· = {}) {} := by
    refine ⟨fun h => h, fun found path mount s h => ?_⟩
    cases found
    simp only [selfReference]
    split <;> exact h
  have only : {source | IsSource context (· = {}) {} source} ⊆ {"vault:x"} := by
    intro source is
    obtain ⟨store, payload, s, fields, found, _, done, rfl⟩ := secret_of_isSource is
    cases found
    simp only [selfReference] at done
    split at done
    · next same => simp [SecretRef.source, same, toString]
    · cases done
  have few : {source | IsSource context (· = {}) {} source}.encard < (2 : Nat) :=
    lt_of_le_of_lt ((Set.encard_le_encard only).trans (Set.encard_singleton _).le)
      (by exact_mod_cast Nat.one_lt_two)
  refine ⟨still, few, fun f depth failed kind => ?_, by decide +kernel⟩
  obtain ⟨a, payload, store, g, _, _, found, refused, deep, _⟩ :=
    (runaway_contained still rfl 2 _).2 few f depth failed kind
  cases found
  simp only [selfReference] at refused
  split at refused
  · cases refused
  · cases refused
    cases deep

/-- A store that answers every read with a failure of its own. -/
def refusing (f : Fault) : SecretStore World where
  read _ _ _ := Traced.fail f

/-- The store has to be excepted: its failures are handed on, also one that speaks of depth where there
is no source at all. -/
theorem refusing_tooDeep :
    let context := Context.ofWorlds (some (refusing (.depthExceeded 5)))
    let walked := (Tree.text "VAULT->x").resolve registry context 1 {}
    Still context (· = {}) {} ∧
      {source | IsSource context (· = {}) {} source}.encard < (1 : Nat) ∧
      ∃ f, walked.outcome = .error f ∧ f.kind = .depthExceeded 5 := by
  intro context walked
  have none : {source | IsSource context (· = {}) {} source} = ∅ := by
    refine Set.eq_empty_of_forall_notMem fun source is => ?_
    obtain ⟨store, payload, s, fields, found, _, done, _⟩ := secret_of_isSource is
    cases found
    cases done
  refine ⟨⟨fun h => h, fun found _ _ _ h => ?_⟩, ?_, ?_⟩
  · cases found
    exact h
  · rw [none, Set.encard_empty]
    exact_mod_cast Nat.one_pos
  · exact ⟨(Fault.depthExceeded 5).inDirective "VAULT->x", by decide +kernel, rfl⟩

end Expansion
end Directives
