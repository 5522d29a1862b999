import Directives.Proofs.Ensured
import Directives.Proofs.Spared
import Directives.Tree.Equality

/-! Locality of resolution. Later lookups are chosen by what earlier ones answered, so two walks are
followed step by step: as long as the surroundings agree on whatever the first walk looks up, the second
asks for the same things, gets the same answers, and goes on in the same way. -/
namespace Directives

/-- The first computation does what the second does, from corresponding states on, if each call that the
second makes is such that the surroundings agree on it. -/
def Traced.Follows {κ σ ε α : Type} (Same : σ → σ → Prop) (agreed : κ → Prop) (m' m : Traced κ σ ε α) :
    Prop :=
  ∀ ⦃s' s⦄, Same s' s → (∀ call ∈ (m s).calls, agreed call) → (m' s').Alike Same (m s)

namespace Traced.Follows
variable {κ σ ε α β : Type} {Same : σ → σ → Prop} {agreed : κ → Prop}

theorem pure (a : α) : Follows Same agreed (pure a : Traced κ σ ε α) (pure a) :=
  fun _ _ same _ => ⟨rfl, rfl, same⟩

theorem fail (e : ε) : Follows Same agreed (fail e : Traced κ σ ε α) (fail e) :=
  fun _ _ same _ => ⟨rfl, rfl, same⟩

theorem ofExcept (outcome : Except ε α) :
    Follows Same agreed (ofExcept outcome : Traced κ σ ε α) (ofExcept outcome) := by
  cases outcome with
  | ok a => exact pure a
  | error e => exact fail e

theorem record (call : κ) : Follows Same agreed (record call : Traced κ σ ε Unit) (record call) :=
  fun _ _ same _ => ⟨rfl, rfl, same⟩

theorem bind {m' m : Traced κ σ ε α} {next' next : α → Traced κ σ ε β}
    (first : Follows Same agreed m' m) (rest : ∀ a, Follows Same agreed (next' a) (next a)) :
    Follows Same agreed (m' >>= next') (m >>= next) := by
  intro s' s same agree
  cases outcome : (m s).outcome with
  | error e =>
    rw [bind_of_error outcome] at agree ⊢
    have begun := first same agree
    rw [bind_of_error (begun.outcome.trans outcome)]
    exact ⟨rfl, begun.calls, begun.state⟩
  | ok a =>
    rw [bind_of_ok outcome] at agree ⊢
    have begun := first same fun call member => agree call (List.mem_append_left _ member)
    have ended := rest a begun.state fun call member => agree call (List.mem_append_right _ member)
    rw [bind_of_ok (begun.outcome.trans outcome)]
    exact ⟨ended.outcome, congrArg₂ _ begun.calls ended.calls, ended.state⟩

theorem mapError {ε' : Type} {m' m : Traced κ σ ε α} (place : ε → ε') (follows : Follows Same agreed m' m) :
    Follows Same agreed (m'.mapError place) (m.mapError place) := by
  intro s' s same agree
  have answers := follows same agree
  exact ⟨congrArg (Except.mapError place) answers.outcome, answers.calls, answers.state⟩

theorem correspondence {agreed : κ → Prop} : Tree.Correspondence
    (fun {α} (m' m : Traced κ σ Fault α) => Follows Same agreed m' m) where
  pure := pure
  bind := bind
  mapError _ := mapError _

end Traced.Follows

namespace Walk
variable {σ α : Type} {Same : σ → σ → Prop} {agreed : Entry → Prop}

/-- Outside the walks are in corresponding states, and inside they have one stack. -/
structure Level (Same : σ → σ → Prop) (w' w : Walk σ) : Prop where
  outside : Same w'.outside w.outside
  stack : w'.stack = w.stack

/-- On an action the walks do the same, if the surroundings agree on the entries of the second. -/
abbrev Tracks (Same : σ → σ → Prop) (agreed : Entry → Prop) (m' m : Action σ α) : Prop :=
  Traced.Follows (Level Same) agreed m' m

theorem tracks_note (event : Event) : Tracks Same agreed (note event) (note event) := by
  intro w' w level _
  refine ⟨rfl, ?_, level⟩
  simp only [note, level.stack]

theorem tracks_lift {asked : Call → Prop} {m' m : Run σ Fault α} (follows : Traced.Follows Same asked m' m)
    (agree : ∀ call stack, agreed ⟨.lookup call, stack⟩ → asked call) :
    Tracks Same agreed (lift m') (lift m) := by
  intro w' w level agrees
  have answers := follows level.outside fun call member =>
    agree call w.stack (agrees _ (List.mem_map_of_mem member))
  refine ⟨answers.outcome, ?_, answers.state, level.stack⟩
  simp only [lift, answers.calls, level.stack]

theorem tracks_guarded {source : String} {inner' inner : Action σ α}
    (tracks : Tracks Same agreed inner' inner) :
    Tracks Same agreed (guarded source inner') (guarded source inner) := by
  intro w' w level agree
  by_cases again : source ∈ w.stack
  · rw [guarded_of_mem again, guarded_of_mem (level.stack ▸ again), level.stack]
    exact ⟨rfl, rfl, level⟩
  · rw [guarded_of_not_mem again] at agree ⊢
    rw [guarded_of_not_mem (level.stack ▸ again)]
    have below : Level Same (w'.below source) (w.below source) :=
      ⟨level.outside, congrArg (· ++ [source]) level.stack⟩
    have answers := tracks below agree
    exact ⟨answers.outcome, answers.calls, answers.state.outside,
      congrArg List.dropLast answers.state.stack⟩

theorem tracks_within (source : Option String) {inner' inner : Action σ α}
    (tracks : Tracks Same agreed inner' inner) :
    Tracks Same agreed (within source inner') (within source inner) := by
  have completes : Tracks Same agreed (complete inner') (complete inner) :=
    tracks.bind fun _ => (tracks_note _).bind fun _ => .pure _
  refine (tracks_note _).bind fun _ => ?_
  cases source with
  | none => exact completes
  | some source => exact tracks_guarded completes

end Walk

namespace Builtin
open Walk Expansion
variable {σ : Type} {Same : σ → σ → Prop} {there here : Context σ} {s' s : σ} {limit room : Nat}

/-- In corresponding states the surroundings answer alike to a call: the variable has one text, the file
one content and one path without links, and both have a store that reads the secret alike. -/
def Agree (Same : σ → σ → Prop) (there here : Context σ) : Call → Prop
  | .environment name => ∀ {s' s}, Same s' s →
    (there.world s').environment.text? name = (here.world s).environment.text? name
  | .file path => ∀ {s' s}, Same s' s →
    (there.world s').files.read path = (here.world s).files.read path ∧
      (there.world s').files.canonical? path = (here.world s).files.canonical? path
  | .secret mount path => ∃ store' store, there.secrets = some store' ∧ here.secrets = some store ∧
    ∀ {s' s}, Same s' s →
      (store'.read there.token path mount s').Alike Same (store.read here.token path mount s)
  | .request _ | .pause _ => True

/-- What a directive with this token and payload looks up: what it names, and for a secret whatever the
store does to read it. -/
inductive LooksUp (context : Context σ) : (token payload : String) → Call → Prop
  | variable (name : String) : LooksUp context envToken name (.environment name)
  | optionalVariable (name : String) : LooksUp context optionalEnvToken name (.environment name)
  | file (path : String) : LooksUp context fileToken path (.file path)
  | optionalFile (path : String) : LooksUp context optionalFileToken path (.file path)
  | secret (payload : String) : LooksUp context secretToken payload
      (.secret (SecretRef.ofText payload).mount (SecretRef.ofText payload).path)
  | stored {store : SecretStore σ} {payload : String} {s : σ} {call : Call} :
    context.secrets = some store →
    call ∈ (store.read context.token (SecretRef.ofText payload).path
      (SecretRef.ofText payload).mount s).calls →
    LooksUp context secretToken payload call

/-- The surroundings agree on a lookup, and, where a secret is called for, on whether there is a store. -/
def AgreeOn (Same : σ → σ → Prop) (there here : Context σ) (e : Entry) : Prop :=
  match e.event with
  | .lookup call => Agree Same there here call
  | .resolver token _ => token = secretToken → there.secrets.isSome = here.secrets.isSome
  | _ => True

theorem follows_lookUp (name : String) :
    Traced.Follows Same (Agree Same there here) (lookUp there name) (lookUp here name) := by
  intro s' s same agree
  have text : Agree Same there here (.environment name) := agree _ List.mem_cons_self
  exact ⟨congrArg Except.ok (text same), rfl, same⟩

section
variable (check : ∀ {s' s}, Same s' s → (there.check s').outcome = (here.check s).outcome)
include check

theorem follows_check {agreed : Call → Prop} : Traced.Follows Same agreed there.check here.check :=
  fun _ _ same _ => ⟨check same, rfl, same⟩

theorem follows_readFile (path : String) :
    Traced.Follows Same (Agree Same there here) (readFile there path) (readFile here path) := by
  refine (follows_check check).bind fun _ s' s same agree => ?_
  have file : Agree Same there here (.file path) := agree _ List.mem_cons_self
  obtain ⟨content, canonical⟩ := file same
  have value : Source.read (there.world s').files path = Source.read (here.world s).files path := by
    rw [Source.read, content, Source.read]
  have source : fileSource (there.world s').files path = fileSource (here.world s).files path := by
    rw [fileSource, canonical, fileSource]
  exact ⟨congrArg Except.ok (congrArg₂ Prod.mk value source), rfl, same⟩

theorem follows_secret (store : there.secrets.isSome = here.secrets.isSome) (payload : String) :
    Traced.Follows Same (Agree Same there here) (secretResolver.resolve there payload)
      (secretResolver.resolve here payload) := by
  cases found' : there.secrets with
  | none =>
    have found : here.secrets = none := by simpa [found'] using store.symm
    simp only [secretResolver, found, found']
    exact .fail _
  | some store' =>
    obtain ⟨store, found⟩ : ∃ store, here.secrets = some store := by
      simpa [found', Option.isSome_iff_exists] using store.symm
    simp only [secretResolver, found, found']
    refine (follows_check check).bind fun _ s' s same agree => ?_
    obtain ⟨other', other, is', is, reads⟩ := agree _ List.mem_cons_self
    obtain rfl := Option.some.inj (found'.symm.trans is')
    obtain rfl := Option.some.inj (found.symm.trans is)
    have read : Traced.Follows Same (Agree Same there here)
        (store'.read there.token (SecretRef.ofText payload).path (SecretRef.ofText payload).mount)
        (store.read here.token (SecretRef.ofText payload).path (SecretRef.ofText payload).mount) :=
      fun _ _ same _ => reads same
    exact ((Traced.Follows.record _).bind fun _ => read.bind fun _ => .pure _) same agree

theorem follows_resolve {resolver : Resolver σ} (member : resolver ∈ resolvers) (payload : String)
    (store : resolver.token = secretToken → there.secrets.isSome = here.secrets.isSome) :
    Traced.Follows Same (Agree Same there here) (resolver.resolve there payload)
      (resolver.resolve here payload) := by
  simp only [resolvers, List.mem_cons, List.not_mem_nil, or_false] at member
  rcases member with rfl | rfl | rfl | rfl | rfl
  · refine (follows_lookUp payload).bind fun value => ?_
    cases value with
    | none => exact .fail _
    | some value =>
      dsimp only
      split
      · exact .fail _
      · exact .pure _
  · exact (follows_lookUp payload).bind fun _ => .pure _
  · refine (follows_readFile check payload).bind fun found => ?_
    split
    · exact .pure _
    · exact .fail _
  · refine (follows_readFile check payload).bind fun found => ?_
    split
    · exact .pure _
    · split
      · exact .pure _
      · exact .fail _
  · exact follows_secret check (store rfl) payload

/-- The two walks start a resolver together, and it answers both alike. -/
theorem tracks_resolve {resolver : Resolver σ} (member : resolver ∈ resolvers) (payload : String) :
    Tracks Same (AgreeOn Same there here)
      (note (.resolver resolver.token payload) >>= fun _ => lift (resolver.resolve there payload))
      (note (.resolver resolver.token payload) >>= fun _ => lift (resolver.resolve here payload)) := by
  intro w' w level agree
  have store : resolver.token = secretToken → there.secrets.isSome = here.secrets.isSome :=
    agree ⟨.resolver resolver.token payload, w.stack⟩ List.mem_cons_self
  have resolved : Tracks Same (AgreeOn Same there here) (lift (resolver.resolve there payload))
      (lift (resolver.resolve here payload)) :=
    tracks_lift (follows_resolve check member payload store) fun _ _ => id
  exact ((tracks_note _).bind fun _ => resolved) level agree

theorem tracks_evaluate (raw : String) :
    Tracks Same (AgreeOn Same there here) (evaluate registry there ((registry : Registry σ).split raw))
      (evaluate registry here ((registry : Registry σ).split raw)) := by
  have fetched : Tracks Same (AgreeOn Same there here)
      (fetch there ((registry : Registry σ).split raw).stem
        (registry.resolver? ((registry : Registry σ).split raw).stem))
      (fetch here ((registry : Registry σ).split raw).stem
        (registry.resolver? ((registry : Registry σ).split raw).stem)) := by
    cases found : (registry : Registry σ).resolver? ((registry : Registry σ).split raw).stem with
    | none => exact .pure _
    | some pair =>
      have member : pair.1 ∈ resolvers := (Registry.mem_of_resolver? found).1
      have checked : Tracks Same (AgreeOn Same there here) (lift there.check) (lift here.check) :=
        tracks_lift (follows_check check) fun _ _ => id
      exact checked.bind fun _ => tracks_resolve check member pair.2
  have coerced (value : Tree) : Tracks Same (AgreeOn Same there here)
      (coerce registry ((registry : Registry σ).split raw).coercions value)
      (coerce registry ((registry : Registry σ).split raw).coercions value) := by
    refine Traced.Follows.correspondence.compositional.coerce (fun coercion member t => ?_)
      (registry.knows_split raw) value
    refine (tracks_note _).bind fun _ => ?_
    simp only [registry, coercions, List.mem_cons, List.not_mem_nil, or_false] at member
    have applied : Traced.Follows Same (Agree Same there here) (coercion.apply t) (coercion.apply t) := by
      rcases member with rfl | rfl <;> exact .ofExcept _
    exact tracks_lift applied fun _ _ => id
  exact fetched.bind fun resolved => (coerced resolved.value).bind fun _ => .pure _

/-- The first walk keeps up with the second as long as the surroundings agree on what the second looks
up. -/
theorem tracks_expandTree (t : Tree) :
    Tracks Same (AgreeOn Same there here) (expandTree registry there limit room t)
      (expandTree registry here limit room t) := by
  have visited {expand' expand : String → Action σ Tree}
      (directives : ∀ raw, Tracks Same (AgreeOn Same there here) (expand' raw) (expand raw)) (t : Tree) :
      Tracks Same (AgreeOn Same there here) (t.visit (expandText registry expand'))
        (t.visit (expandText registry expand)) :=
    Traced.Follows.correspondence.visit
      (Traced.Follows.correspondence.text (fun _ => rfl) fun raw _ => directives raw) t
  induction room generalizing t with
  | zero => exact visited (fun raw => (tracks_note _).bind fun _ => .fail _) t
  | succ room ih =>
    refine visited (fun raw => ?_) t
    exact (tracks_note _).bind fun _ => (tracks_evaluate check raw).bind fun resolved =>
      tracks_within resolved.source (ih resolved.value)

end

/-- Each lookup of an action is made by a resolver that the action starts, for what the payload names. -/
def Grounded {α : Type} (context : Context σ) (m : Action σ α) : Prop :=
  ∀ ⦃w call stack⦄, ⟨.lookup call, stack⟩ ∈ (m w).calls →
    ∃ token payload, ⟨.resolver token payload, stack⟩ ∈ (m w).calls ∧
      LooksUp context token payload call

namespace Grounded
variable {α β : Type} {context : Context σ}

theorem note {event : Event} (silent : ∀ call, event ≠ .lookup call) :
    Grounded context (note event) :=
  fun _ call _ member => absurd (congrArg Entry.event (List.mem_singleton.mp member)).symm (silent call)

theorem bind {m : Action σ α} {next : α → Action σ β} (first : Grounded context m)
    (rest : ∀ a, Grounded context (next a)) : Grounded context (m >>= next) := by
  intro w call stack member
  cases outcome : (m w).outcome with
  | error f =>
    rw [Traced.bind_of_error outcome] at member ⊢
    exact first member
  | ok a =>
    rw [Traced.bind_of_ok outcome] at member ⊢
    rcases List.mem_append.mp member with member | member
    · obtain ⟨token, payload, started, looksUp⟩ := first member
      exact ⟨token, payload, List.mem_append_left _ started, looksUp⟩
    · obtain ⟨token, payload, started, looksUp⟩ := rest a member
      exact ⟨token, payload, List.mem_append_right _ started, looksUp⟩

theorem compositional : Tree.Compositional (fun {α} (m : Action σ α) => Grounded context m) where
  pure _ := fun _ _ _ member => nomatch member
  bind := bind
  mapError _ grounded := fun _ _ _ member => grounded member

theorem guarded {source : String} {inner : Action σ α} (grounded : Grounded context inner) :
    Grounded context (guarded source inner) := by
  intro w call stack member
  by_cases again : source ∈ w.stack
  · rw [guarded_of_mem again] at member
    cases member
  · rw [guarded_of_not_mem again] at member ⊢
    exact grounded member

theorem within (source : Option String) {inner : Action σ α} (grounded : Grounded context inner) :
    Grounded context (within source inner) := by
  have completes : Grounded context (complete inner) :=
    grounded.bind fun _ => (note (by simp)).bind fun _ => compositional.pure _
  refine (note (by simp)).bind fun _ => ?_
  cases source with
  | none => exact completes
  | some source => exact completes.guarded

end Grounded

section
variable {context : Context σ}

theorem looksUp_of_resolve (context : Context σ) {resolver : Resolver σ} (member : resolver ∈ resolvers)
    (payload : String) :
    Traced.Ensures (fun _ => True) (LooksUp context resolver.token payload) (fun _ => True)
      (fun _ => True) (resolver.resolve context payload) := by
  have checked {looksUp : Call → Prop} : Traced.Ensures (fun _ => True) looksUp (fun _ => True)
      (fun _ => True) context.check :=
    ⟨id, (fun _ _ member => nomatch member), fun _ _ => trivial, fun _ _ => trivial⟩
  have looked {looksUp : Call → Prop} (named : looksUp (.environment payload)) :
      Traced.Ensures (fun _ => True) looksUp (fun _ => True) (fun _ => True) (lookUp context payload) :=
    (Traced.Ensures.record named).bind fun _ _ => .read fun _ => trivial
  have file {looksUp : Call → Prop} (named : looksUp (.file payload)) :
      Traced.Ensures (fun _ => True) looksUp (fun _ => True) (fun _ => True) (readFile context payload) :=
    checked.bind fun _ _ => (Traced.Ensures.record named).bind fun _ _ => .read fun _ => trivial
  simp only [resolvers, List.mem_cons, List.not_mem_nil, or_false] at member
  rcases member with rfl | rfl | rfl | rfl | rfl
  · refine (looked (.variable payload)).bind fun value _ => ?_
    cases value with
    | none => exact .fail trivial
    | some value =>
      dsimp only
      split
      · exact .fail trivial
      · exact .pure trivial
  · exact (looked (.optionalVariable payload)).bind fun _ _ => .pure trivial
  · refine (file (.file payload)).bind fun found _ => ?_
    split
    · exact .pure trivial
    · exact .fail trivial
  · refine (file (.optionalFile payload)).bind fun found _ => ?_
    split
    · exact .pure trivial
    · split
      · exact .pure trivial
      · exact .fail trivial
  · simp only [secretResolver]
    split
    · exact .fail trivial
    · next store found =>
      refine checked.bind fun _ _ => (Traced.Ensures.record (.secret payload)).bind fun _ _ => ?_
      have read : Traced.Ensures (fun _ => True) (LooksUp context secretToken payload) (fun _ => True)
          (fun _ => True) (store.read context.token (SecretRef.ofText payload).path
            (SecretRef.ofText payload).mount) :=
        ⟨fun _ => trivial, fun _ _ => .stored found, fun _ _ => trivial, fun _ _ => trivial⟩
      exact read.bind fun _ _ => .pure trivial

theorem grounded_evaluate (raw : String) :
    Grounded context (evaluate registry context ((registry : Registry σ).split raw)) := by
  have silent {α : Type} {m : Run σ Fault α} (calls : ∀ s, (m s).calls = []) :
      Grounded context (lift m) := by
    intro w call stack member
    rw [lift, calls] at member
    cases member
  refine Grounded.compositional.evaluate (silent fun _ => rfl) (fun resolver member payload => ?_)
    (fun coercion member t => (Grounded.note (by simp)).bind fun _ => silent fun s => ?_) raw
  · intro w call stack looked
    rw [note_bind] at looked ⊢
    rcases List.mem_cons.mp looked with same | looked
    · cases same
    · obtain ⟨asked, made, same⟩ := List.mem_map.mp looked
      cases same
      exact ⟨resolver.token, payload, List.mem_cons_self,
        (looksUp_of_resolve context member payload).calls trivial call made⟩
  · simp only [registry, coercions, List.mem_cons, List.not_mem_nil, or_false] at member
    rcases member with rfl | rfl
    · dsimp only
      cases toInteger t <;> rfl
    · dsimp only
      cases toDuration t <;> rfl

theorem grounded_expandTree (t : Tree) :
    Grounded context (expandTree registry context limit room t) := by
  induction room generalizing t with
  | zero =>
    refine Grounded.compositional.expand (fun raw _ => ?_) t
    exact (Grounded.note (by simp)).bind fun _ => fun _ _ _ member => nomatch member
  | succ room ih =>
    refine Grounded.compositional.expand (fun raw _ => ?_) t
    exact (Grounded.note (by simp)).bind fun _ => (grounded_evaluate raw).bind fun resolved =>
      .within resolved.source (ih resolved.value)

end

/-- Resolution is local. Take two surroundings in which the token is checked with the same outcome, and
which agree on every variable, file and secret that a tree's resolution in the one looks up, and where it
calls for a secret, on whether there is a store. Then the tree resolves in the other with the same outcome,
by the same steps and the same lookups in the same order. What no resolver that was started names, for
instance a variable for a path that no directive names, is not looked up and has no influence. -/
theorem resolve_local {s' s : σ} (same : Same s' s) (t : Tree) (maxDepth : Nat)
    (check : ∀ {s' s}, Same s' s → (there.check s').outcome = (here.check s).outcome)
    (agree : ∀ call ∈ (t.resolve registry here maxDepth s).calls, Agree Same there here call)
    (store : ∀ payload stack, ⟨.resolver secretToken payload, stack⟩ ∈
      (t.walk registry here maxDepth { outside := s }).calls →
        there.secrets.isSome = here.secrets.isSome) :
    let walked' := t.walk registry there maxDepth { outside := s' }
    let walked := t.walk registry here maxDepth { outside := s }
    let resolved' := t.resolve registry there maxDepth s'
    let resolved := t.resolve registry here maxDepth s
    resolved'.outcome = resolved.outcome ∧ resolved'.calls = resolved.calls ∧
      Same resolved'.state resolved.state ∧ walked'.calls = walked.calls ∧
      ∀ call ∈ resolved.calls, ∃ token payload stack,
        ⟨.resolver token payload, stack⟩ ∈ walked.calls ∧ LooksUp here token payload call := by
  intro walked' walked resolved' resolved
  have agreeOn : ∀ e ∈ walked.calls, AgreeOn Same there here e := by
    rintro ⟨event, stack⟩ member
    cases event with
    | lookup call => exact agree call (List.mem_filterMap.mpr ⟨_, member, rfl⟩)
    | resolver token payload =>
      rintro rfl
      exact store payload stack member
    | directive | coercion | expand | expanded => trivial
  have level : Level Same { outside := s' } { outside := s } := ⟨same, rfl⟩
  have tracked : walked'.Alike (Level Same) walked := tracks_expandTree check t level agreeOn
  refine ⟨tracked.outcome, congrArg (List.filterMap Entry.lookup?) tracked.calls, tracked.state.outside,
    tracked.calls, fun call asked => ?_⟩
  obtain ⟨⟨event, stack⟩, member, is⟩ := List.mem_filterMap.mp asked
  cases event with
  | lookup other =>
    obtain rfl : other = call := Option.some.inj is
    obtain ⟨token, payload, started, looksUp⟩ := grounded_expandTree t member
    exact ⟨token, payload, stack, started, looksUp⟩
  | directive | resolver | coercion | expand | expanded => cases is

/-- A store with a secret `x`, and another one wherever else it is asked. -/
def twoSecrets (other : String) : SecretStore World where
  read _ path _ := pure [("p", .text (if path = "x" then "5::atoi" else other))]

theorem resolve_local_unread :
    let here : Context World := Context.ofWorlds (some (twoSecrets "mine"))
    let there : Context World := Context.ofWorlds (some (twoSecrets "yours"))
    let s : World := { environment := ⟨[Text.toUtf8 "A=VAULT->x", Text.toUtf8 "CONFIG_PATH=/a"]⟩ }
    let s' : World := { environment := ⟨[Text.toUtf8 "VAULT_CONFIG=/b", Text.toUtf8 "A=VAULT->x"]⟩ }
    let Same := fun t' t => t' = s' ∧ t = s
    let t := Tree.text "ENV->A"
    (t.resolve registry here 3 s).calls = [.environment "A", .secret none "x"] ∧
      Agree Same there here (.environment "A") ∧ Agree Same there here (.secret none "x") ∧
      (t.resolve registry there 3 s').outcome = .ok (.mapping [("p", .integer 5)]) ∧
      (t.resolve registry there 3 s').calls = [.environment "A", .secret none "x"] := by
  intro here there s s' Same t
  have calls : (t.resolve registry here 3 s).calls = [.environment "A", .secret none "x"] := by
    decide +kernel
  have text : Agree Same there here (.environment "A") := by
    rintro _ _ ⟨rfl, rfl⟩
    decide +kernel
  have secret : Agree Same there here (.secret none "x") :=
    ⟨_, _, rfl, rfl, fun same => ⟨rfl, rfl, same⟩⟩
  have agree : ∀ call ∈ (t.resolve registry here 3 s).calls, Agree Same there here call := by
    rw [calls]
    simp only [List.mem_cons, List.not_mem_nil, or_false]
    rintro _ (rfl | rfl)
    · exact text
    · exact secret
  have beside : Same s' s := ⟨rfl, rfl⟩
  obtain ⟨outcome, same, _⟩ := resolve_local beside t 3 (fun _ => rfl) agree fun _ _ _ => rfl
  have resolved : (t.resolve registry here 3 s).outcome = .ok (.mapping [("p", .integer 5)]) := by
    decide +kernel
  exact ⟨calls, text, secret, outcome.trans resolved, same.trans calls⟩

end Builtin
end Directives
