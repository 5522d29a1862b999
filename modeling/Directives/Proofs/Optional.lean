import Directives.Proofs.Origins
import Directives.Proofs.Peeling
import Directives.Proofs.Spared

/-! Optional directives in place of required ones. A tree whose required directives are made optional resolves
as before, if it did; and where it resolves though it did not before, one of these very directives named a
variable or a file that is not there. What values bring in stays as required as it is. -/
namespace Directives

namespace Tree
variable {κ σ : Type} {leaf : String → Traced κ σ Fault Tree}

mutual

/-- The tree with other texts in place of its own. -/
def mapTexts (f : String → String) : Tree → Tree
  | .text raw => .text (f raw)
  | .sequence items => .sequence (mapItemTexts f items)
  | .mapping fields => .mapping (mapFieldTexts f fields)
  | scalar => scalar
termination_by structural t => t

def mapItemTexts (f : String → String) : List Tree → List Tree
  | [] => []
  | item :: rest => mapTexts f item :: mapItemTexts f rest
termination_by structural items => items

def mapFieldTexts (f : String → String) : List (String × Tree) → List (String × Tree)
  | [] => []
  | (key, value) :: rest => (key, mapTexts f value) :: mapFieldTexts f rest
termination_by structural fields => fields

end

mutual

theorem visit_mapTexts (f : String → String) : ∀ t : Tree,
    (t.mapTexts f).visit leaf = t.visit fun raw => leaf (f raw)
  | .text raw => rfl
  | .sequence items => by rw [mapTexts, visit, visit, visitItems_mapTexts f items]
  | .mapping fields => by rw [mapTexts, visit, visit, visitFields_mapTexts f fields]
  | .null | .bool _ | .integer _ | .float _ | .duration _ => rfl
termination_by structural t => t

theorem visitItems_mapTexts (f : String → String) : ∀ (items : List Tree) (position : Nat),
    visitItems leaf position (mapItemTexts f items) = visitItems (fun raw => leaf (f raw)) position items
  | [], _ => rfl
  | item :: rest, position => by
    rw [mapItemTexts, visitItems, visitItems, visit_mapTexts f item, visitItems_mapTexts f rest]
termination_by structural items => items

theorem visitFields_mapTexts (f : String → String) : ∀ fields : List (String × Tree),
    visitFields leaf (mapFieldTexts f fields) = visitFields (fun raw => leaf (f raw)) fields
  | [] => rfl
  | (key, value) :: rest => by
    rw [mapFieldTexts, visitFields, visitFields, visit_mapTexts f value, visitFields_mapTexts f rest]
termination_by structural fields => fields

end

end Tree

namespace Walk
variable {σ α β : Type} {m' m : Action σ α}

/-- The answers are the same, and so are the lookups in their trails. -/
structure Agrees (answer' answer : Traced.Answer Entry (Walk σ) Fault α) : Prop where
  outcome : answer'.outcome = answer.outcome
  state : answer'.state = answer.state
  lookups : answer'.calls.filterMap Entry.lookup? = answer.calls.filterMap Entry.lookup?

/-- Where the second action succeeds, the first agrees with it. -/
def Covers (m' m : Action σ α) : Prop := ∀ w a, (m w).outcome = .ok a → Agrees (m' w) (m w)

namespace Covers

theorem refl (m : Action σ α) : Covers m m := fun _ _ _ => ⟨rfl, rfl, rfl⟩

theorem agrees_bind {next' next : α → Action σ β} {w : Walk σ} {a : α} (covers : Covers m' m)
    (first : (m w).outcome = .ok a) (rest : Agrees (next' a (m w).state) (next a (m w).state)) :
    Agrees ((m' >>= next') w) ((m >>= next) w) := by
  have begun := covers w a first
  rw [Traced.bind_of_ok first, Traced.bind_of_ok (begun.outcome.trans first), begun.state]
  refine ⟨rest.outcome, rest.state, ?_⟩
  rw [List.filterMap_append, List.filterMap_append, begun.lookups, rest.lookups]

theorem bind {next' next : α → Action σ β} (covers : Covers m' m) (rest : ∀ a, Covers (next' a) (next a)) :
    Covers (m' >>= next') (m >>= next) := by
  intro w b done
  obtain ⟨a, first, done⟩ := Traced.bind_outcome_ok.mp done
  exact agrees_bind covers first (rest a _ b done)

theorem mapError {place' place : Fault → Fault} (covers : Covers m' m) :
    Covers (m'.mapError place') (m.mapError place) := by
  intro w a done
  have done := Traced.mapError_outcome_ok.mp done
  have answers := covers w a done
  refine ⟨?_, answers.state, answers.lookups⟩
  rw [Traced.mapError_of_ok done, Traced.mapError_of_ok (answers.outcome.trans done)]

theorem correspondence : Tree.Correspondence (fun {α} (m' m : Action σ α) => Covers m' m) where
  pure _ := refl _
  bind := bind
  mapError _ := mapError

theorem note {event' event : Event}
    (same : ∀ stack, Entry.lookup? ⟨event', stack⟩ = Entry.lookup? ⟨event, stack⟩) :
    Covers (note event' : Action σ Unit) (note event) := by
  intro w u _
  refine ⟨rfl, rfl, ?_⟩
  simp only [Walk.note, List.filterMap_cons, same]

theorem lift {r' r : Run σ Fault α} (same : ∀ s a, (r s).outcome = .ok a → r' s = r s) :
    Covers (lift r') (lift r) := by
  intro w a done
  have same := same w.outside a done
  simp only [Walk.lift, same]
  exact ⟨rfl, rfl, rfl⟩

/-- If two actions go on in the same way and come out differently, they do so before. -/
theorem differ {next : α → Action σ β} {w : Walk σ} {b : β} {f : Fault} (covers : Covers m' m)
    (done : ((m' >>= next) w).outcome = .ok b) (failed : ((m >>= next) w).outcome = .error f) :
    ∃ a, (m' w).outcome = .ok a ∧ (m w).outcome = .error f := by
  obtain ⟨a, begun, _⟩ := Traced.bind_outcome_ok.mp done
  cases first : (m w).outcome with
  | ok b =>
    have agrees : Agrees ((m' >>= next) w) ((m >>= next) w) := agrees_bind covers first ⟨rfl, rfl, rfl⟩
    cases done.symm.trans (agrees.outcome.trans failed)
  | error g =>
    rw [Traced.bind_of_error first] at failed
    cases failed
    exact ⟨a, begun, rfl⟩

/-- If two visits to a tree come out differently, they do so at one of its texts. -/
theorem visit_differ {leaf' leaf : String → Action σ Tree} {t v : Tree} {w : Walk σ} {f : Fault}
    (each : ∀ raw, Covers (leaf' raw) (leaf raw)) (done : (t.visit leaf' w).outcome = .ok v)
    (failed : (t.visit leaf w).outcome = .error f) :
    ∃ place raw trail w' v' g, t.Meets leaf w place raw trail w' ∧ (leaf' raw w').outcome = .ok v' ∧
      (leaf raw w').outcome = .error g ∧ f = g.beneath place := by
  obtain ⟨place, raw, trail, w', g, meets, refused, rfl⟩ := Tree.visit_error failed
  obtain ⟨before, after, values, split, passed⟩ := meets
  have earlier : (before.mapM (Tree.visitLeaf leaf) w).outcome = .ok values := by rw [passed]
  have answers := correspondence.visitLeaves before each w values earlier
  have earlier' := answers.outcome.trans earlier
  have left : (before.mapM (Tree.visitLeaf leaf') w).state = w' := answers.state.trans (by rw [passed])
  have passed' : before.mapM (Tree.visitLeaf leaf') w =
      ⟨.ok values, w', (before.mapM (Tree.visitLeaf leaf') w).calls⟩ := by
    rw [← earlier', ← left]
  rw [(Tree.visit_resumes split passed').outcome] at done
  obtain ⟨v', here, _⟩ := Traced.bind_outcome_ok.mp done
  exact ⟨place, raw, trail, w', v', g, ⟨before, after, values, split, passed⟩,
    Traced.mapError_outcome_ok.mp here, refused, rfl⟩

end Covers
end Walk

namespace Expansion
open Walk
variable {σ : Type} {registry : Registry σ} {context : Context σ} {limit room : Nat} {w : Walk σ}

/-- The texts differ in their resolvers alone. The first does what the second does where that succeeds; and
where the second alone fails, it lacks something. -/
structure Softens (registry : Registry σ) (context : Context σ) (lacks : σ → Fault → Prop)
    (raw' raw payload : String) (softer strict : Resolver σ) : Prop where
  coercions : (registry.split raw').coercions = (registry.split raw).coercions
  found' : registry.resolver? (registry.split raw').stem = some (softer, payload)
  found : registry.resolver? (registry.split raw).stem = some (strict, payload)
  same : ∀ s resolved, (strict.resolve context payload s).outcome = .ok resolved →
    softer.resolve context payload s = strict.resolve context payload s
  lacks : ∀ s resolved f, (softer.resolve context payload s).outcome = .ok resolved →
    (strict.resolve context payload s).outcome = .error f → lacks s f

theorem directive_of_resolver? {raw : String} {found : Resolver σ × String}
    (matched : registry.resolver? (registry.split raw).stem = some found) : ¬ isPlain registry raw = true := by
  simp [isPlain, matched]

namespace Softens
variable {lacks : σ → Fault → Prop} {raw' raw payload : String} {softer strict : Resolver σ}
  (softens : Softens registry context lacks raw' raw payload softer strict)
include softens

theorem covers_fetch (stem' stem : String) :
    Covers (fetch context stem' (some (softer, payload))) (fetch context stem (some (strict, payload))) := by
  have noted : Covers (note (.resolver softer.token payload) : Action σ Unit)
      (note (.resolver strict.token payload)) := Covers.note fun _ => rfl
  exact (Covers.refl _).bind fun _ => noted.bind fun _ => Covers.lift softens.same

theorem covers_evaluate :
    Covers (evaluate registry context (registry.split raw')) (evaluate registry context (registry.split raw)) := by
  rw [evaluate, evaluate, softens.coercions, softens.found', softens.found]
  exact (softens.covers_fetch _ _).bind fun _ => Covers.refl _

theorem covers_expandDirective :
    Covers (expandDirective registry context limit room raw')
      (expandDirective registry context limit room raw) := by
  cases room with
  | zero =>
    intro w v done
    cases done
  | succ room =>
    have noted (level : Nat) : Covers (note (.directive raw' level) : Action σ Unit)
        (note (.directive raw level)) := Covers.note fun _ => rfl
    rw [expandDirective, expandDirective]
    exact (noted _).bind fun _ => softens.covers_evaluate.bind fun _ => Covers.refl _

theorem covers_expandText :
    Covers (expandText registry (expandDirective registry context limit room) raw')
      (expandText registry (expandDirective registry context limit room) raw) := by
  rw [expandText_directive (directive_of_resolver? softens.found'),
    expandText_directive (directive_of_resolver? softens.found)]
  exact softens.covers_expandDirective.mapError

variable {f : Fault}

theorem lacks_of_fetch {stem' stem : String} {resolved : Resolved}
    (done : (fetch context stem' (some (softer, payload)) w).outcome = .ok resolved)
    (failed : (fetch context stem (some (strict, payload)) w).outcome = .error f) : lacks w.outside f := by
  cases live : (context.check w.outside).outcome with
  | error g =>
    rw [fetch_of_error live] at done
    cases done
  | ok u =>
    rw [fetch_of_ok live] at done failed
    exact softens.lacks w.outside resolved f done failed

theorem lacks_of_evaluate {resolved : Resolved}
    (done : (evaluate registry context (registry.split raw') w).outcome = .ok resolved)
    (failed : (evaluate registry context (registry.split raw) w).outcome = .error f) : lacks w.outside f := by
  rw [evaluate, softens.found', softens.coercions] at done
  rw [evaluate, softens.found] at failed
  obtain ⟨fetched, begun, refused⟩ := (softens.covers_fetch _ _).differ done failed
  exact softens.lacks_of_fetch begun refused

theorem lacks_of_expandDirective {v : Tree}
    (done : (expandDirective registry context limit room raw' w).outcome = .ok v)
    (failed : (expandDirective registry context limit room raw w).outcome = .error f) : lacks w.outside f := by
  cases room with
  | zero => cases done
  | succ room =>
    rw [expandDirective, note_bind] at done failed
    obtain ⟨resolved, begun, refused⟩ := softens.covers_evaluate.differ done failed
    exact softens.lacks_of_evaluate begun refused

/-- A text that fails where the other does not fails for what it lacks, and the failure names it. -/
theorem lacks_of_expandText {v : Tree}
    (done : (expandText registry (expandDirective registry context limit room) raw' w).outcome = .ok v)
    (failed : (expandText registry (expandDirective registry context limit room) raw w).outcome = .error f) :
    ∃ cause, lacks w.outside cause ∧ f = cause.inDirective raw := by
  rw [expandText_directive (directive_of_resolver? softens.found')] at done
  rw [expandText_directive (directive_of_resolver? softens.found)] at failed
  have done := Traced.mapError_outcome_ok.mp done
  cases outcome : (expandDirective registry context limit room raw w).outcome with
  | ok u =>
    rw [Traced.mapError_of_ok outcome] at failed
    cases failed
  | error cause =>
    rw [Traced.mapError_of_error outcome] at failed
    cases failed
    exact ⟨cause, softens.lacks_of_expandDirective done outcome, rfl⟩

end Softens
end Expansion

namespace Builtin
open Walk Expansion
variable {σ : Type} {context : Context σ} {s : σ} {limit room : Nat}

/-- The path leads to nothing. -/
def Missing (files : Files) (path : String) : Prop :=
  files.locate path = .error .notFound ∨ ∃ place, files.locate path = .ok (.absent place)

theorem missing_of_octets {files : Files} {path : String} (failed : files.octets path = .error .notFound) :
    Missing files path := by
  rw [Files.octets] at failed
  split at failed
  · next problem located =>
    cases failed
    exact .inl located
  · next place located => exact .inr ⟨place, located⟩
  · cases failed
  · cases failed

/-- Where a file is not found, the path leads to nothing. -/
theorem missing_of_read {files : Files} {path : String} {problem : Source.Problem}
    (failed : Source.read files path = .error problem) (none : problem.isNotFound = true) :
    problem = .unreadable .notFound ∧ Missing files path := by
  cases problem with
  | yaml | json | shape => cases none
  | unreadable problem =>
    obtain rfl : problem = .notFound := of_decide_eq_true none
    refine ⟨rfl, missing_of_octets ?_⟩
    cases found : files.octets path with
    | error problem =>
      simp only [Source.read, Files.read, found] at failed
      cases failed
      rfl
    | ok octets =>
      cases text : Text.ofUtf8? octets with
      | none => simp [Source.read, Files.read, found, text] at failed
      | some content =>
        simp only [Source.read, Files.read, found, text, Source.Format.decode,
          Source.Format.tree_mapError] at failed
        split at failed
        · split at failed <;> cases failed
        · split at failed <;> cases failed
        · cases failed

theorem read_of_missing {files : Files} {path : String} (missing : Missing files path) :
    Source.read files path = .error (.unreadable .notFound) := by
  rcases missing with located | ⟨place, located⟩ <;> simp [Source.read, Files.read, Files.octets, located]

/-- A required directive names something that is not there, and what it says of that. -/
inductive Lacks (context : Context σ) (s : σ) : (stem : String) → Fault → Prop
  | unset {name : String} : (context.world s).environment.Unset name →
    Lacks context s (envToken ++ name) (.missingVariable name)
  | missing {path : String} : Missing (context.world s).files path →
    Lacks context s (fileToken ++ path) (fileFault path (.unreadable .notFound))

/-- The stem with the optional token in place of a required one. -/
def relaxStem (stem : String) : String :=
  match Registry.payload? envToken stem, Registry.payload? fileToken stem with
  | some name, _ => optionalEnvToken ++ name
  | none, some path => optionalFileToken ++ path
  | none, none => stem

/-- The text of a required directive made optional; coercions stay. -/
def relaxText (known : Registry σ) (raw : String) : String :=
  Split.text ⟨relaxStem (known.split raw).stem, (known.split raw).coercions⟩

theorem relaxStem_env (name : String) : relaxStem (envToken ++ name) = optionalEnvToken ++ name := by
  rw [relaxStem, Registry.payload?_eq_some_iff.mpr rfl]

theorem relaxStem_file (path : String) : relaxStem (fileToken ++ path) = optionalFileToken ++ path := by
  have other : Registry.payload? envToken (fileToken ++ path) = none := by
    simp [Registry.payload?, envToken, fileToken]
  rw [relaxStem, other, Registry.payload?_eq_some_iff.mpr rfl]

theorem relaxStem_cases (stem : String) : relaxStem stem = stem ∨
    (∃ name, stem = envToken ++ name) ∨ ∃ path, stem = fileToken ++ path := by
  cases env : Registry.payload? envToken stem with
  | some name => exact .inr (.inl ⟨name, Registry.payload?_eq_some_iff.mp env⟩)
  | none =>
    cases file : Registry.payload? fileToken stem with
    | some path => exact .inr (.inr ⟨path, Registry.payload?_eq_some_iff.mp file⟩)
    | none => exact .inl (by rw [relaxStem, env, file])

theorem relaxText_of_stem {known : Registry σ} {raw : String}
    (same : relaxStem (known.split raw).stem = (known.split raw).stem) : relaxText known raw = raw := by
  rw [relaxText, same]
  exact (Split.parses_ofText _ raw).written

section
variable {raw : String}

/-- An optional token is a required one with a letter in front. -/
theorem split_lead (relaxed : relaxStem ((registry : Registry σ).split raw).stem =
      "O" ++ ((registry : Registry σ).split raw).stem)
    (begun : ∀ name, ((registry : Registry σ).split raw).stem ≠ "::" ++ name) :
    (registry : Registry σ).split (relaxText (registry : Registry σ) raw) =
      ⟨relaxStem ((registry : Registry σ).split raw).stem, ((registry : Registry σ).split raw).coercions⟩ := by
  rw [relaxText, relaxed]
  exact Split.ofText_lead (by decide) (by decide) rfl begun

/-- The text that was put together comes apart into the changed stem and the same coercions. -/
theorem split_relaxText (raw : String) :
    (registry : Registry σ).split (relaxText (registry : Registry σ) raw) =
      ⟨relaxStem ((registry : Registry σ).split raw).stem, ((registry : Registry σ).split raw).coercions⟩ := by
  obtain same | ⟨name, stem⟩ | ⟨path, stem⟩ := relaxStem_cases ((registry : Registry σ).split raw).stem
  · rw [relaxText_of_stem same, same]
  · apply split_lead
    · rw [stem, relaxStem_env, ← String.append_assoc]
      rfl
    · simp [stem, envToken, ← String.toList_inj]
  · apply split_lead
    · rw [stem, relaxStem_file, ← String.append_assoc]
      rfl
    · simp [stem, fileToken, ← String.toList_inj]

example : relaxText (registry : Registry Unit) "FS->port.txt::atoi" = "OFS->port.txt::atoi" := by decide +kernel

theorem softens_env {name : String} (stem : ((registry : Registry σ).split raw).stem = envToken ++ name) :
    Softens registry context (fun s f => Lacks context s (envToken ++ name) f)
      (relaxText (registry : Registry σ) raw) raw name optionalEnvironmentResolver environmentResolver := by
  have cases (s : σ) := (context.world s).environment.unset_or_set name
  constructor
  case coercions => rw [split_relaxText]
  case found' =>
    rw [split_relaxText, stem, relaxStem_env]
    exact @resolver?_token σ optionalEnvironmentResolver (by simp [resolvers]) name
  case found => rw [stem, resolver?_env]
  case same =>
    intro s resolved done
    rcases cases s with unset | ⟨value, set, full⟩
    · rw [environmentResolver_of_unset unset] at done
      cases done
    · rw [environmentResolver_of_set set full, optionalEnvironmentResolver_of_set set]
  case lacks =>
    intro s resolved f _ failed
    rcases cases s with unset | ⟨value, set, full⟩
    · rw [environmentResolver_of_unset unset] at failed
      cases failed
      exact .unset unset
    · rw [environmentResolver_of_set set full] at failed
      cases failed

theorem softens_file {path : String} (stem : ((registry : Registry σ).split raw).stem = fileToken ++ path) :
    Softens registry context (fun s f => Lacks context s (fileToken ++ path) f)
      (relaxText (registry : Registry σ) raw) raw path optionalFileResolver fileResolver := by
  constructor
  case coercions => rw [split_relaxText]
  case found' =>
    rw [split_relaxText, stem, relaxStem_file]
    exact @resolver?_token σ optionalFileResolver (by simp [resolvers]) path
  case found => rw [stem, resolver?_file]
  case same =>
    intro s resolved done
    cases live : (context.check s).outcome with
    | error g => rw [fileResolver_of_error live] at done; cases done
    | ok u =>
      cases read : Source.read (context.world s).files path with
      | ok t => rw [fileResolver_of_read live read, optionalFileResolver_of_read live read]
      | error problem => rw [fileResolver_of_problem live read] at done; cases done
  case lacks =>
    intro s resolved f done failed
    cases live : (context.check s).outcome with
    | error g => rw [optionalFileResolver_of_error live] at done; cases done
    | ok u =>
      cases read : Source.read (context.world s).files path with
      | ok t => rw [fileResolver_of_read live read] at failed; cases failed
      | error problem =>
        rw [fileResolver_of_problem live read] at failed
        cases failed
        cases there : problem.isNotFound with
        | false => rw [optionalFileResolver_of_problem live read there] at done; cases done
        | true =>
          obtain ⟨rfl, missing⟩ := missing_of_read read there
          exact .missing missing

/-- A text is left as it is, or it is that of a required directive. -/
theorem relaxText_cases (raw : String) : relaxText (registry : Registry σ) raw = raw ∨
    ∃ payload softer strict, Softens registry context
      (fun s f => Lacks context s ((registry : Registry σ).split raw).stem f)
      (relaxText (registry : Registry σ) raw) raw payload softer strict := by
  obtain same | ⟨name, stem⟩ | ⟨path, stem⟩ := relaxStem_cases ((registry : Registry σ).split raw).stem
  · exact .inl (relaxText_of_stem same)
  · rw [stem]
    exact .inr ⟨name, _, _, softens_env stem⟩
  · rw [stem]
    exact .inr ⟨path, _, _, softens_file stem⟩

theorem covers_relaxText (raw : String) :
    Covers
      (expandText registry (expandDirective registry context limit room) (relaxText (registry : Registry σ) raw))
      (expandText registry (expandDirective registry context limit room) raw) := by
  obtain same | ⟨_, _, _, softens⟩ := relaxText_cases raw
  · rw [same]
    exact Covers.refl _
  · exact softens.covers_expandText

theorem lacks_of_relaxText {w : Walk σ} {v : Tree} {f : Fault}
    (done : (expandText registry (expandDirective registry context limit room)
      (relaxText (registry : Registry σ) raw) w).outcome = .ok v)
    (failed : (expandText registry (expandDirective registry context limit room) raw w).outcome = .error f) :
    ∃ cause, ¬ isPlain (registry : Registry σ) raw = true ∧
      Lacks context w.outside ((registry : Registry σ).split raw).stem cause ∧ f = cause.inDirective raw := by
  obtain same | ⟨_, _, _, softens⟩ := relaxText_cases raw
  · rw [same] at done
    cases done.symm.trans failed
  · obtain ⟨cause, lacks, rfl⟩ := softens.lacks_of_expandText done failed
    exact ⟨cause, directive_of_resolver? softens.found, lacks, rfl⟩

theorem refused_of_lacks {stem : String} {cause : Fault} (lacks : Lacks context s stem cause) :
    ∃ resolver payload, (registry : Registry σ).resolver? stem = some (resolver, payload) ∧
      ((context.check s).outcome = .ok () → (resolver.resolve context payload s).outcome = .error cause) := by
  cases lacks with
  | @unset name unset =>
    refine ⟨_, _, resolver?_env name, fun _ => ?_⟩
    rw [environmentResolver_of_unset unset]
  | @missing path missing =>
    refine ⟨_, _, resolver?_file path, fun live => ?_⟩
    rw [fileResolver_of_problem live (read_of_missing missing)]

/-- A required directive fails itself where what it names is not there, whatever stands around it. -/
theorem refuses_of_lacks {w : Walk σ} {cause : Fault}
    (lacks : Lacks context w.outside ((registry : Registry σ).split raw).stem cause) :
    ∃ f, Refuses registry context limit room raw w none f ∧
      (room ≠ 0 → (context.check w.outside).outcome = .ok () → f = cause) := by
  cases room with
  | zero => exact ⟨_, .depth raw w, fun none => absurd rfl none⟩
  | succ room =>
    obtain ⟨resolver, payload, found, refuses⟩ := refused_of_lacks lacks
    cases live : (context.check w.outside).outcome with
    | error f =>
      refine ⟨f, .fetch ?_, fun _ done => ?_⟩
      · rw [found, fetch_of_error live]
      · cases done
    | ok u =>
      refine ⟨cause, .fetch ?_, fun _ _ => rfl⟩
      rw [found, fetch_of_ok live, note_bind]
      exact refuses live

end

theorem Lacks.unplaced {stem : String} {cause : Fault} (lacks : Lacks context s stem cause) :
    cause.bare = cause := by
  cases lacks <;> rfl

/-- Making the required directives of a tree optional changes their stems alone, and is conservative. If the tree
resolved, it resolves to the same value from the same state, and asks for the same. If it resolves now and failed
before, it failed at one of the texts that were changed, which named a variable that is not set or a file that is
not there; the failure says so, and stands at that text. And wherever a walk comes to a required directive that
lacks something, be it in a value that an optional one brought in, the walk fails there: unless there is no room
or the token is no longer live, for what is lacking. -/
theorem relaxed_conservative (context : Context σ) (maxDepth : Nat) (t : Tree) (s : σ) :
    let relaxed := t.mapTexts (relaxText (registry : Registry σ))
    (∀ raw, (registry : Registry σ).split (relaxText (registry : Registry σ) raw) =
      ⟨relaxStem ((registry : Registry σ).split raw).stem, ((registry : Registry σ).split raw).coercions⟩) ∧
    (∀ v, (t.resolve registry context maxDepth s).outcome = .ok v →
      relaxed.resolve registry context maxDepth s = t.resolve registry context maxDepth s) ∧
    (∀ v f, (relaxed.resolve registry context maxDepth s).outcome = .ok v →
      (t.resolve registry context maxDepth s).outcome = .error f →
      ∃ a place cause, Reaches registry context maxDepth maxDepth t { outside := s } a ∧
        a.places = [place] ∧ (place, a.raw) ∈ t.leaves ∧
        Lacks context a.walk.outside ((registry : Registry σ).split a.raw).stem cause ∧
        f = { cause with location := place, directive := some a.raw }) ∧
    (∀ u a cause, Reaches registry context maxDepth maxDepth u { outside := s } a →
      Lacks context a.walk.outside ((registry : Registry σ).split a.raw).stem cause →
      ∃ f, (u.resolve registry context maxDepth s).outcome = .error (a.place f) ∧
        (a.room ≠ 0 → (context.check a.walk.outside).outcome = .ok () → f = cause)) := by
  intro relaxed
  let expand := expandText (registry : Registry σ) (expandDirective registry context maxDepth maxDepth)
  have visited : relaxed.walk registry context maxDepth =
      t.visit fun raw => expand (relaxText (registry : Registry σ) raw) := Tree.visit_mapTexts _ t
  refine ⟨split_relaxText, fun v done => ?_, fun v f done failed => ?_, fun u a cause reaches lacks => ?_⟩
  · have agrees : Agrees (relaxed.walk registry context maxDepth { outside := s })
        (t.walk registry context maxDepth { outside := s }) := by
      rw [visited]
      exact Covers.correspondence.visit covers_relaxText t { outside := s } v done
    simp only [Tree.resolve, agrees.outcome, agrees.state, agrees.lookups]
  · have done : (relaxed.walk registry context maxDepth { outside := s }).outcome = .ok v := done
    rw [visited] at done
    obtain ⟨place, raw, trail, w', v', g, meets, passed, refused, rfl⟩ :=
      Covers.visit_differ covers_relaxText done failed
    obtain ⟨cause, directive, lacks, rfl⟩ := lacks_of_relaxText passed refused
    have nowhere : cause.location = [] := congrArg Fault.location lacks.unplaced.symm
    have unknown : cause.directive = none := congrArg Fault.directive lacks.unplaced.symm
    refine ⟨_, place, cause, .here meets directive, rfl, meets.mem, lacks, ?_⟩
    simp [Fault.inDirective, Fault.beneath, nowhere, unknown]
  · obtain ⟨f, refuses, same⟩ := refuses_of_lacks lacks
    exact ⟨f, (reaches.failure refuses).1, same⟩

end Builtin
end Directives
