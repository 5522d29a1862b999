import Mathlib.Data.List.Induction
import Mathlib.Data.List.TakeWhile
import Directives.Proofs.Origins

/-! Secrets and their sources. A source puts the mount and the path of a secret into one text, so a
secret below a mount has a twin without a mount, whose path begins with that mount, and the two have one
source. No other two secrets share a source. Hence a directive for a secret is refused as circular only
inside a directive for the same secret or for its twin. -/
namespace Directives

namespace SecretRef

/-- A secret below a mount, and the one without a mount that has the same source. -/
def Twins (a b : SecretRef) : Prop :=
  ∃ mount, a.mount = some mount ∧ b.mount = none ∧ b.path = mount ++ "/" ++ a.path

theorem not_mem_of_splitAtSlash? {text first rest : List Char}
    (split : splitAtSlash? text = some (first, rest)) : '/' ∉ first := by
  rw [splitAtSlash?] at split
  split at split
  · cases split
  · cases split
    intro member
    simpa using List.mem_takeWhile_imp member

theorem splitAtSlash?_append {first : List Char} (slashless : '/' ∉ first) (rest : List Char) :
    splitAtSlash? (first ++ '/' :: rest) = some (first, rest) := by
  have other : ∀ c ∈ first, decide (c ≠ '/') = true := by
    intro c member
    exact decide_eq_true fun slash => slashless (slash ▸ member)
  rw [splitAtSlash?, List.dropWhile_append_of_pos other, List.takeWhile_append_of_pos other]
  simp

theorem slash_not_mem_mount {text mount : String} (below : (ofText text).mount = some mount) :
    '/' ∉ mount.toList := by
  rw [ofText] at below
  split at below
  · next rest _ =>
    split at below
    · next first mount path split =>
      obtain rfl := Option.some.inj below
      rw [String.toList_ofList]
      exact not_mem_of_splitAtSlash? split
    · cases below
  · cases below

theorem source_of_mount {r : SecretRef} {mount : String} (below : r.mount = some mount) :
    r.source.toList = "vault:".toList ++ (mount.toList ++ '/' :: r.path.toList) := by
  simp [source, below, toString]

theorem source_of_no_mount {r : SecretRef} (bare : r.mount = none) :
    r.source.toList = "vault:".toList ++ r.path.toList := by
  simp [source, bare, toString]

theorem Twins.source_eq {a b : SecretRef} (twins : Twins a b) : a.source = b.source := by
  obtain ⟨mount, below, bare, path⟩ := twins
  rw [← String.toList_inj, source_of_mount below, source_of_no_mount bare, path]
  simp

/-- Only twins share a source. -/
theorem source_eq_iff (p q : String) :
    (ofText p).source = (ofText q).source ↔
      ofText p = ofText q ∨ Twins (ofText p) (ofText q) ∨ Twins (ofText q) (ofText p) := by
  have twins {a b : SecretRef} {mount : String} (below : a.mount = some mount) (bare : b.mount = none)
      (same : a.source = b.source) : Twins a b := by
    refine ⟨mount, below, bare, ?_⟩
    rw [← String.toList_inj, source_of_mount below, source_of_no_mount bare] at same
    rw [← String.toList_inj, ← List.append_cancel_left same]
    simp
  have alike {a b : SecretRef} (mount : a.mount = b.mount) (path : a.path = b.path) : a = b := by
    cases a
    cases b
    cases mount
    cases path
    rfl
  constructor
  · intro same
    cases below : (ofText p).mount with
    | none =>
      cases below' : (ofText q).mount with
      | none =>
        rw [← String.toList_inj, source_of_no_mount below, source_of_no_mount below'] at same
        have path := String.toList_inj.mp (List.append_cancel_left same)
        exact .inl (alike (below.trans below'.symm) path)
      | some mount => exact .inr (.inr (twins below' below same.symm))
    | some mount =>
      cases below' : (ofText q).mount with
      | none => exact .inr (.inl (twins below below' same))
      | some mount' =>
        rw [← String.toList_inj, source_of_mount below, source_of_mount below'] at same
        -- Neither mount holds a slash, so both end at the first one.
        have first := splitAtSlash?_append (slash_not_mem_mount below) (ofText p).path.toList
        rw [List.append_cancel_left same, splitAtSlash?_append (slash_not_mem_mount below')] at first
        obtain ⟨mounts, paths⟩ := Prod.mk.inj (Option.some.inj first)
        obtain rfl := String.toList_inj.mp mounts
        exact .inl (alike (below.trans below'.symm) (String.toList_inj.mp paths).symm)
  · rintro (same | twins | twins)
    · rw [same]
    · exact twins.source_eq
    · exact twins.source_eq.symm

end SecretRef

namespace Walk

/-- An expansion that is going on after a trail began somewhere in it. -/
theorem exists_begun {trail : List Entry} {around : List (Option String)} {source : Option String}
    (inside : around ++ [source] <+: enclosing [] trail) :
    ∃ before stack after, trail = before ++ ⟨.expand source, stack⟩ :: after ∧
      enclosing [] before = around := by
  induction trail using List.reverseRecOn with
  | nil => simp [enclosing] at inside
  | append_singleton trail e ih =>
    obtain ⟨event, stack⟩ := e
    rw [enclosing_append] at inside
    have earlier (inside : around ++ [source] <+: enclosing [] trail) :
        ∃ before stack' after, trail ++ [⟨event, stack⟩] =
          before ++ ⟨.expand source, stack'⟩ :: after ∧ enclosing [] before = around := by
      obtain ⟨before, stack', after, rfl, same⟩ := ih inside
      exact ⟨before, stack', after ++ [⟨event, stack⟩], by simp, same⟩
    cases event with
    | expand begun =>
      rcases List.prefix_concat_iff.mp inside with same | inside
      · obtain ⟨begins, last⟩ := List.append_inj' same rfl
        obtain rfl := List.singleton_inj.mp last
        exact ⟨trail, stack, [], rfl, begins.symm⟩
      · exact earlier inside
    | expanded => exact earlier (inside.trans (List.dropLast_prefix _))
    | directive | resolver | coercion | lookup => exact earlier inside

/-- Each source on the stack is that of an expansion that began further out. -/
theorem exists_begun_of_mem_stack {before after : List Entry} {e : Entry} {source : String}
    (orderly : Orderly [] (before ++ e :: after)) (member : source ∈ e.stack) :
    ∃ outer around inner, before = outer ++ ⟨.expand (some source), around⟩ :: inner ∧
      around ++ [source] <+: e.stack := by
  have sources : e.stack = (enclosing [] before).reduceOption := orderly.inPlace.holds.sources
  have framed : some source ∈ enclosing [] before := List.reduceOption_mem_iff.mp (sources ▸ member)
  obtain ⟨around, deeper, frames⟩ := List.append_of_mem framed
  have frame : around ++ [some source] <+: enclosing [] before := ⟨deeper, by simp [frames]⟩
  obtain ⟨outer, stack, inner, rfl, same⟩ := exists_begun frame
  rw [List.append_assoc, List.cons_append] at orderly
  refine ⟨outer, stack, inner, rfl, deeper.reduceOption, ?_⟩
  have begun : stack = around.reduceOption := same ▸ orderly.inPlace.holds.sources
  rw [sources, frames, begun, List.reduceOption_append, List.reduceOption_cons_of_some]
  simp

/-- Something that a resolver or a coercion does, or the note on a coercion. -/
def Entry.Serves (e : Entry) : Prop := (∃ call, e.event = .lookup call) ∨ ∃ name, e.event = .coercion name

end Walk

namespace Builtin
open Walk Expansion
open Traced (Yields yields_anything)
variable {σ α β : Type} {context : Context σ} {limit room : Nat} {w : Walk σ}

/-- At the end of the trail the directive that was evaluated last has asked for a secret. -/
def Asked (trail : List Entry) (stack : List String) (secret : SecretRef) : Prop :=
  ∃ before payload after, secret = SecretRef.ofText payload ∧
    trail = before ++ ⟨.resolver secretToken payload, stack⟩ ::
      ⟨.lookup (.secret secret.mount secret.path), stack⟩ :: after ∧
    ∀ e ∈ after, e.Serves

theorem Asked.prepend {trail : List Entry} {stack : List String} {secret : SecretRef}
    (asked : Asked trail stack secret) (earlier : List Entry) : Asked (earlier ++ trail) stack secret := by
  obtain ⟨before, payload, after, same, rfl, serves⟩ := asked
  exact ⟨earlier ++ before, payload, after, same, (List.append_assoc ..).symm, serves⟩

theorem Asked.append {trail after : List Entry} {stack : List String} {secret : SecretRef}
    (asked : Asked trail stack secret) (serves : ∀ e ∈ after, e.Serves) :
    Asked (trail ++ after) stack secret := by
  obtain ⟨before, payload, earlier, same, rfl, served⟩ := asked
  refine ⟨before, payload, earlier ++ after, same, by simp, fun e member => ?_⟩
  rcases List.mem_append.mp member with member | member
  · exact served e member
  · exact serves e member

/-- An expansion that begins after that comes in between. -/
theorem Asked.since {before after : List Entry} {stack stack' : List String} {secret : SecretRef}
    {source : Option String} (asked : Asked (before ++ ⟨.expand source, stack'⟩ :: after) stack secret) :
    Asked after stack secret := by
  obtain ⟨start, payload, rest, same, split, serves⟩ := asked
  have split : (start ++ [⟨.resolver secretToken payload, stack⟩,
      ⟨.lookup (.secret secret.mount secret.path), stack⟩]) ++ rest =
        before ++ ⟨.expand source, stack'⟩ :: after := by
    simpa using split.symm
  rcases append_eq_append_cons split with ⟨r, early⟩ | ⟨r, _, late⟩
  · rcases append_eq_append_cons early with ⟨r, rfl⟩ | ⟨r, _, own⟩
    · refine ⟨r, payload, rest, same, ?_, serves⟩
      simpa using split.symm
    · have member : ⟨.expand source, stack'⟩ ∈ [⟨.resolver secretToken payload, stack⟩,
          (⟨.lookup (.secret secret.mount secret.path), stack⟩ : Entry)] :=
        own ▸ List.mem_append_right _ List.mem_cons_self
      simp at member
  · have serves := serves ⟨.expand source, stack'⟩ (late ▸ List.mem_append_right _ List.mem_cons_self)
    simp [Entry.Serves] at serves

/-- Only the resolver for secrets gives values with the source of a secret. -/
theorem yields_secret {resolver : Resolver σ} (member : resolver ∈ resolvers) (payload : String) :
    Yields (fun resolved => ∀ other, resolved.source = some (SecretRef.ofText other).source →
      resolver.token = secretToken ∧
        (SecretRef.ofText payload).source = (SecretRef.ofText other).source)
      (resolver.resolve context payload) := by
  have apart (files : Files) {found : Resolved}
      (origin : found.source = some (variableSource payload) ∨
        found.source = some (fileSource files payload) ∨ found.source = none) :
      ∀ other, found.source = some (SecretRef.ofText other).source → resolver.token = secretToken ∧
        (SecretRef.ofText payload).source = (SecretRef.ofText other).source := by
    intro other same
    rw [same] at origin
    obtain ⟨_, setting, file⟩ := sources_apart files payload payload other
    rcases origin with origin | origin | origin
    · exact absurd (Option.some.inj origin).symm setting
    · exact absurd (Option.some.inj origin).symm file
    · cases origin
  have file : Yields (fun answer => ∃ files, answer.2 = fileSource files payload)
      (readFile context payload) :=
    (yields_anything _).bind fun _ _ => (yields_anything _).bind fun _ _ => .read fun _ => ⟨_, rfl⟩
  simp only [resolvers, List.mem_cons, List.not_mem_nil, or_false] at member
  rcases member with rfl | rfl | rfl | rfl | rfl
  · refine (yields_anything (lookUp context payload)).bind fun value _ => ?_
    cases value with
    | none => exact .fail trivial
    | some value =>
      dsimp only
      split
      · exact .fail trivial
      · exact .pure (apart {} (.inl rfl))
  · exact (yields_anything _).bind fun _ _ => .pure (apart {} (.inl rfl))
  · refine file.bind fun answer found => ?_
    obtain ⟨files, found⟩ := found
    split
    · exact .pure (apart files (.inr (.inl (congrArg some found))))
    · exact .fail trivial
  · refine file.bind fun answer found => ?_
    obtain ⟨files, found⟩ := found
    split
    · exact .pure (apart files (.inr (.inl (congrArg some found))))
    · split
      · exact .pure (apart files (.inr (.inr rfl)))
      · exact .fail trivial
  · cases stored : context.secrets with
    | none =>
      simp only [secretResolver, stored]
      exact .fail trivial
    | some store =>
      simp only [secretResolver, stored]
      refine (yields_anything _).bind fun _ _ => (yields_anything _).bind fun _ _ => ?_
      refine (yields_anything _).bind fun fields _ => .pure fun other same => ?_
      exact ⟨trivial, Option.some.inj same⟩

theorem serves_coerce {names : List String} (known : (registry : Registry σ).Knows names) (value : Tree) :
    ∀ e ∈ (coerce registry names value w).calls, e.Serves := by
  refine (Tree.compositional_calls Entry.Serves).coerce (fun coercion _ t => ?_) known value w
  exact Tree.calls_note_lift (fun _ => .inr ⟨_, rfl⟩) (fun call _ => .inl ⟨call, rfl⟩) _

theorem secretResolver_calls {payload : String} {s : σ} {resolved : Resolved}
    (done : (secretResolver.resolve context payload s).outcome = .ok resolved) :
    ∃ after, (secretResolver.resolve context payload s).calls =
      .secret (SecretRef.ofText payload).mount (SecretRef.ofText payload).path :: after := by
  cases stored : context.secrets with
  | none => simp [secretResolver, stored, Traced.fail] at done
  | some store =>
    simp only [secretResolver, stored] at done ⊢
    obtain ⟨_, checked, _⟩ := Traced.bind_outcome_ok.mp done
    rw [Traced.bind_of_ok checked]
    exact ⟨_, rfl⟩

theorem asked_of_fetch {stem payload : String} {resolved : Resolved}
    (done : (fetch context stem ((registry : Registry σ).resolver? stem) w).outcome = .ok resolved)
    (secret : resolved.source = some (SecretRef.ofText payload).source) :
    ∃ asked, asked.source = (SecretRef.ofText payload).source ∧
      Asked (fetch context stem ((registry : Registry σ).resolver? stem) w).calls w.stack asked := by
  cases found : (registry : Registry σ).resolver? stem with
  | none =>
    rw [found] at done
    cases done
    cases secret
  | some pair =>
    obtain ⟨resolver, given⟩ := pair
    rw [found] at done
    have member : resolver ∈ resolvers := (Registry.mem_of_resolver? found).1
    obtain ⟨_, checked, resolves⟩ := Traced.bind_outcome_ok.mp done
    have resolves : (resolver.resolve context given w.outside).outcome = .ok resolved := resolves
    obtain ⟨token, same⟩ := (yields_secret member given).result trivial resolves payload secret
    obtain rfl := eq_secretResolver member token
    obtain ⟨after, calls⟩ := secretResolver_calls resolves
    have served : (lift (secretResolver.resolve context given) w).calls =
        ⟨.lookup (.secret (SecretRef.ofText given).mount (SecretRef.ofText given).path), w.stack⟩ ::
          after.map fun call => ⟨.lookup call, w.stack⟩ := by
      simp only [lift, calls, List.map_cons]
    refine ⟨SecretRef.ofText given, same, [], given, after.map fun call => ⟨.lookup call, w.stack⟩, rfl,
      ?_, fun e later => ?_⟩
    · rw [fetch, Traced.bind_of_ok checked, note_bind]
      exact congrArg (List.cons _) served
    · obtain ⟨call, _, rfl⟩ := List.mem_map.mp later
      exact .inl ⟨call, rfl⟩

/-- A value with the source of a secret was asked for just before. -/
theorem asked_of_evaluate {raw payload : String} {resolved : Resolved}
    (done : (evaluate registry context ((registry : Registry σ).split raw) w).outcome = .ok resolved)
    (secret : resolved.source = some (SecretRef.ofText payload).source) :
    ∃ asked, asked.source = (SecretRef.ofText payload).source ∧
      Asked (evaluate registry context ((registry : Registry σ).split raw) w).calls w.stack asked := by
  rw [evaluate] at done ⊢
  obtain ⟨fetched, fetches, done⟩ := Traced.bind_outcome_ok.mp done
  obtain ⟨value, coerces, done⟩ := Traced.bind_outcome_ok.mp done
  cases done
  obtain ⟨ref, same, asked⟩ := asked_of_fetch fetches secret
  refine ⟨ref, same, ?_⟩
  rw [Traced.bind_of_ok fetches, Traced.bind_of_ok coerces]
  refine asked.append fun e later => ?_
  rcases List.mem_append.mp later with later | later
  · exact serves_coerce (registry.knows_split raw) _ e later
  · cases later

/-- Where a value with the source of a secret is taken up, the directive has just asked for such a
secret. -/
def Attested (m : Action σ α) : Prop :=
  ∀ ⦃w before after stack payload⦄,
    (m w).calls = before ++ ⟨.expand (some (SecretRef.ofText payload).source), stack⟩ :: after →
    ∃ asked, asked.source = (SecretRef.ofText payload).source ∧ Asked before stack asked

namespace Attested

theorem of_quiet {m : Action σ α} (quiet : ∀ w, ∀ e ∈ (m w).calls, ∀ source, e.event ≠ .expand source) :
    Attested m := by
  intro w before after stack payload split
  have member : ⟨.expand (some (SecretRef.ofText payload).source), stack⟩ ∈ (m w).calls :=
    split ▸ List.mem_append_right _ List.mem_cons_self
  exact absurd rfl (quiet w _ member _)

theorem note {event : Event} (other : ∀ source, event ≠ .expand source) :
    Attested (note event : Action σ Unit) := by
  refine of_quiet fun w e member => ?_
  obtain rfl := List.mem_singleton.mp member
  exact other

theorem bind {m : Action σ α} {next : α → Action σ β} (first : Attested m)
    (rest : ∀ a, Attested (next a)) : Attested (m >>= next) := by
  intro w before after stack payload split
  cases outcome : (m w).outcome with
  | error f =>
    rw [Traced.bind_of_error outcome] at split
    exact first split
  | ok a =>
    rw [Traced.bind_of_ok outcome] at split
    rcases append_eq_append_cons split with ⟨_, early⟩ | ⟨late, rfl, following⟩
    · exact first early
    · obtain ⟨ref, same, asked⟩ := rest a following
      exact ⟨ref, same, asked.prepend _⟩

theorem compositional : Tree.Compositional (fun {α} (m : Action σ α) => Attested m) where
  pure _ := of_quiet fun _ _ member => nomatch member
  bind := bind
  mapError _ attested := fun _ _ _ _ _ split => attested split

theorem complete {inner : Action σ α} (attested : Attested inner) : Attested (complete inner) :=
  attested.bind fun _ => (note (by simp)).bind fun _ => compositional.pure _

theorem guarded {source : String} {inner : Action σ α} (attested : Attested inner) :
    Attested (guarded source inner) := by
  intro w before after stack payload split
  by_cases again : source ∈ w.stack
  · rw [guarded_of_mem again] at split
    simp at split
  · rw [guarded_of_not_mem again] at split
    exact attested split

/-- Behind the note on the value that is taken up. -/
theorem within (source : Option String) {inner : Action σ α} (attested : Attested inner) :
    ∃ taken : Action σ α, Attested taken ∧
      ∀ w, (within source inner w).calls = ⟨.expand source, w.stack⟩ :: (taken w).calls := by
  cases source with
  | none => exact ⟨_, attested.complete, fun _ => rfl⟩
  | some source => exact ⟨_, attested.complete.guarded, fun _ => rfl⟩

theorem evaluate (raw : String) :
    Attested (evaluate registry context ((registry : Registry σ).split raw)) := by
  have looked : ∀ call stack source, (⟨.lookup call, stack⟩ : Entry).event ≠ .expand source := by simp
  refine of_quiet ((Tree.compositional_calls fun e => ∀ source, e.event ≠ .expand source).evaluate
    (fun w e member => ?_) (fun _ _ _ => Tree.calls_note_lift (by simp) looked _)
    (fun _ _ _ => Tree.calls_note_lift (by simp) looked _) raw)
  obtain ⟨call, _, rfl⟩ := List.mem_map.mp member
  exact looked call _

theorem expandTree (t : Tree) : Attested (expandTree registry context limit room t) := by
  induction room generalizing t with
  | zero =>
    refine compositional.expand (fun raw _ => ?_) t
    exact (note (by simp)).bind fun _ => of_quiet fun _ _ member => nomatch member
  | succ room ih =>
    refine compositional.expand (fun raw _ => (note (by simp)).bind fun _ => ?_) t
    intro w before after stack payload split
    cases outcome : (Expansion.evaluate registry context ((registry : Registry σ).split raw) w).outcome with
    | error f =>
      rw [Traced.bind_of_error outcome] at split
      exact Attested.evaluate raw split
    | ok resolved =>
      rw [Traced.bind_of_ok outcome] at split
      rcases append_eq_append_cons split with ⟨_, early⟩ | ⟨late, rfl, following⟩
      · exact Attested.evaluate raw early
      obtain ⟨taken, attested, calls⟩ := (ih resolved.value).within resolved.source
      have following := (calls _).symm.trans following
      cases late with
      | nil =>
        obtain ⟨own, _⟩ := List.cons.inj following
        obtain ⟨origin, here⟩ := Entry.mk.inj own
        obtain ⟨ref, same, asked⟩ := asked_of_evaluate outcome (Event.expand.inj origin)
        refine ⟨ref, same, ?_⟩
        rwa [← here, (restores_evaluate raw).stack w, List.append_nil]
      | cons e late =>
        obtain ⟨rfl, inside⟩ := List.cons.inj following
        obtain ⟨ref, same, asked⟩ := attested inside
        refine ⟨ref, same, ?_⟩
        rw [List.append_cons]
        exact asked.prepend _

end Attested

/-- What the source of a secret tells. Two secrets have one source only if they are twins; and a
directive that is refused because the source of a secret leads back to itself has asked for a secret with
that source, inside a directive that has asked for one too. So the two have asked for the same secret, or
for twins. -/
theorem secret_sources (context : Context σ) (maxDepth : Nat) (t : Tree) (s : σ) :
    let walked := t.walk registry context maxDepth { outside := s }
    (∀ p q, (SecretRef.ofText p).source = (SecretRef.ofText q).source ↔
      SecretRef.ofText p = SecretRef.ofText q ∨
        (SecretRef.ofText p).Twins (SecretRef.ofText q) ∨
          (SecretRef.ofText q).Twins (SecretRef.ofText p)) ∧
    ∀ payload stack, ⟨.expand (some (SecretRef.ofText payload).source), stack⟩ ∈ walked.calls →
      (SecretRef.ofText payload).source ∈ stack →
      ∃ outer around inner first again,
        walked.calls = outer ++ ⟨.expand (some (SecretRef.ofText payload).source), around⟩ :: inner ++
          [⟨.expand (some (SecretRef.ofText payload).source), stack⟩] ∧
        around ++ [(SecretRef.ofText payload).source] <+: stack ∧
        Asked outer around first ∧ Asked inner stack again ∧
        (first = again ∨ first.Twins again ∨ again.Twins first) := by
  intro walked
  refine ⟨SecretRef.source_eq_iff, fun payload stack member refused => ?_⟩
  have accounted : Accounted registry context maxDepth (t.walk registry context maxDepth) :=
    accounted_expandTree (Nat.le_refl _) t
  have disciplined : Disciplined [] (t.walk registry context maxDepth) :=
    disciplined_expandTree (Nat.zero_add _) t
  have attested : Attested (t.walk registry context maxDepth) := .expandTree t
  have orderly : Orderly [] walked.calls := disciplined.trail ⟨rfl, List.nodup_nil⟩
  obtain ⟨before, _, trail, _⟩ := accounted.refused member refused
  obtain ⟨again, sameAgain, askedAgain⟩ := attested trail
  obtain ⟨outer, around, inner, rfl, deeper⟩ := exists_begun_of_mem_stack (trail ▸ orderly) refused
  rw [List.append_assoc, List.cons_append] at trail
  obtain ⟨first, sameFirst, askedFirst⟩ := attested trail
  have askedAgain : Asked inner stack again := askedAgain.since
  refine ⟨outer, around, inner, first, again, ?_, deeper, askedFirst, askedAgain, ?_⟩
  · rw [List.append_assoc, List.cons_append]
    exact trail
  · obtain ⟨_, p, _, rfl, _⟩ := askedFirst
    obtain ⟨_, q, _, rfl, _⟩ := askedAgain
    exact (SecretRef.source_eq_iff p q).mp (sameFirst.trans sameAgain.symm)

/-- Two secrets that are twins, the one with a reference to the other. -/
def twinSecrets : SecretStore World where
  read _ path mount :=
    if mount = some "kv" ∧ path = "app" then pure [("x", .text "VAULT->kv/app")]
    else if mount = none ∧ path = "kv/app" then pure [("y", .text "ok")]
    else Traced.fail (.access path "404 Not Found")

theorem secret_sources_twinSecrets :
    let walked := (Tree.text "VAULT->/kv/app").walk registry (.ofWorlds (some twinSecrets)) 32
      { outside := {} }
    ∃ outer around inner first again,
      walked.calls = outer ++ ⟨.expand (some "vault:kv/app"), around⟩ :: inner ++
        [⟨.expand (some "vault:kv/app"), ["vault:kv/app"]⟩] ∧
      around ++ ["vault:kv/app"] <+: ["vault:kv/app"] ∧
      Asked outer around first ∧ Asked inner ["vault:kv/app"] again ∧
      (first = again ∨ first.Twins again ∨ again.Twins first) := by
  intro walked
  have source : (SecretRef.ofText "kv/app").source = "vault:kv/app" := by decide
  have refused : ⟨.expand (some (SecretRef.ofText "kv/app").source), ["vault:kv/app"]⟩ ∈ walked.calls := by
    decide +kernel
  have leads := (secret_sources (.ofWorlds (some twinSecrets)) 32 (.text "VAULT->/kv/app") {}).2
    "kv/app" ["vault:kv/app"] refused (source ▸ List.mem_cons_self)
  rwa [source] at leads

/-- The two are different secrets, read from the store under different mounts and paths, and neither
leads back to itself; yet the reference is refused. -/
theorem twins_refused :
    let resolved := (Tree.text "VAULT->/kv/app").resolve registry (.ofWorlds (some twinSecrets)) 32 {}
    (SecretRef.ofText "/kv/app").source = (SecretRef.ofText "kv/app").source ∧
      SecretRef.ofText "/kv/app" ≠ SecretRef.ofText "kv/app" ∧
      resolved.calls = [.secret (some "kv") "app", .secret none "kv/app"] ∧
      resolved.outcome = .error (((Fault.circularReference ["vault:kv/app", "vault:kv/app"]).inDirective
        "VAULT->kv/app").under (.key "x")) := by
  intro resolved
  refine ⟨?_, ?_, ?_, ?_⟩ <;> decide +kernel

end Builtin
end Directives
