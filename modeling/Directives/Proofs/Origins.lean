import Directives.Load
import Directives.Proofs.Failures
import Directives.Proofs.Stability

/-! Where values come from, with the resolvers and coercions that every program has. A source tells which
variable, file or secret a value was; and what a coercion accepts holds no directive, since neither
integers nor durations are written with colons or arrows. -/
namespace Directives

namespace Split
variable {names : List String} {text : String}

/-- Nothing is taken off a text that ends with none of the names. -/
theorem ofText_of_unsuffixed
    (unsuffixed : ∀ name ∈ names, ¬ ':' :: ':' :: name.toList <:+ text.toList) :
    ofText names text = ⟨text, []⟩ := by
  refine ofText_of_peel?_eq_none (peel?_eq_none_iff.mpr fun name member rest whole => ?_)
  exact absurd ⟨rest, whole.symm⟩ (unsuffixed name member)

/-- An ending that begins with a colon does not reach into a token without colons. -/
theorem suffix_of_append {token rest ending : List Char} (colonless : ':' ∉ token)
    (suffix : ':' :: ending <:+ token ++ rest) : ':' :: ending <:+ rest := by
  obtain ⟨before, split⟩ := suffix
  rcases List.append_eq_append_iff.mp split with ⟨inside, rfl, tail⟩ | ⟨inside, rfl, tail⟩
  · cases inside with
    | nil => exact ⟨[], tail⟩
    | cons c inside =>
      obtain ⟨rfl, _⟩ := List.cons.inj tail
      exact absurd (List.mem_append_right _ List.mem_cons_self) colonless
  · exact ⟨inside, tail.symm⟩

end Split

namespace Integer

theorem digit_of_accumulate {low high value result : Int} {negative : Bool} {text : List Char}
    (done : accumulate low high negative value text = .ok result) : ∀ c ∈ text, c.isDigit = true := by
  induction text generalizing value with
  | nil => exact fun _ member => nomatch member
  | cons c rest ih =>
    obtain ⟨digit, _, _, done⟩ := accumulate_cons done
    exact List.forall_mem_cons.mpr ⟨digit, ih done⟩

/-- An integer is written with digits and signs. -/
theorem chars_of_ofChars {low high result : Int} {text : List Char}
    (done : ofChars low high text = .ok result) :
    ∀ c ∈ text, c.isDigit = true ∨ c = '+' ∨ c = '-' := by
  have digits {value : Int} {negative : Bool} {rest : List Char}
      (done : accumulate low high negative value rest = .ok result) :
      ∀ c ∈ rest, c.isDigit = true ∨ c = '+' ∨ c = '-' := fun c member =>
    .inl (digit_of_accumulate done c member)
  unfold ofChars at done
  split at done
  · cases done
  · cases done
  · cases done
  · exact List.forall_mem_cons.mpr ⟨.inr (.inl rfl), digits done⟩
  · split at done
    · exact List.forall_mem_cons.mpr ⟨.inr (.inr rfl), digits done⟩
    · cases done
  · exact digits done

theorem not_mem_of_int64OfText {text : String} {i : Int64} (done : int64OfText text = .ok i) {c : Char}
    (mark : c = ':' ∨ c = '>') : c ∉ text.toList := by
  intro member
  cases read : ofChars minInt64 maxInt64 text.toList with
  | error malformed => simp [int64OfText, read, Except.map] at done
  | ok result =>
    have shape := chars_of_ofChars read c member
    rcases mark with rfl | rfl <;> revert shape <;> decide

end Integer

namespace Duration

/-- No part of a duration is written with these. -/
theorem step_mark {c : Char} (mark : c = ':' ∨ c = '>') (p : Progress) (q : Progress) :
    step p c ≠ .ok q := by
  have digit : c.isDigit = false := by rcases mark with rfl | rfl <;> decide
  have blank : Text.isBlank c = false := by rcases mark with rfl | rfl <;> decide
  have letter : isUnitLetter c = false := by rcases mark with rfl | rfl <;> decide
  have point : c ≠ '.' := by rcases mark with rfl | rfl <;> decide
  obtain ⟨offset, total, phase⟩ := p
  cases phase <;> simp [step, digit, blank, letter, point]

theorem not_mem_of_foldlM {text : List Char} {p q : Progress} (done : text.foldlM step p = .ok q)
    {c : Char} (mark : c = ':' ∨ c = '>') : c ∉ text := by
  induction text generalizing p with
  | nil => exact List.not_mem_nil
  | cons first rest ih =>
    rw [List.foldlM_cons] at done
    cases stepped : step p first with
    | error malformed => rw [stepped] at done; cases done
    | ok next =>
      rw [stepped] at done
      intro member
      rcases List.mem_cons.mp member with rfl | member
      · exact step_mark mark p next stepped
      · exact ih done member

theorem not_mem_of_ofText {text : String} {d : Duration} (done : ofText text = .ok d) {c : Char}
    (mark : c = ':' ∨ c = '>') : c ∉ text.toList := by
  rw [ofText] at done
  split at done
  · next zero =>
    subst zero
    rcases mark with rfl | rfl <;> decide
  · cases read : text.toList.foldlM step ⟨0, .zero, .seek false 0⟩ with
    | error malformed => rw [read] at done; cases done
    | ok p => exact not_mem_of_foldlM read mark

end Duration

namespace Expansion
open Walk
variable {σ : Type} {registry : Registry σ} {context : Context σ}

/-- A value with a source was given by a resolver, whose lookups are in the trail, and then coerced. -/
theorem resolved_of_evaluate {raw source : String} {value : Tree} {w : Walk σ}
    (done : (evaluate registry context (registry.split raw) w).outcome = .ok ⟨value, some source⟩) :
    ∃ resolver payload given w', registry.resolver? (registry.split raw).stem = some (resolver, payload) ∧
      (resolver.resolve context payload w.outside).outcome = .ok ⟨given, some source⟩ ∧
      (coerce registry (registry.split raw).coercions given w').outcome = .ok value ∧
      ∀ call ∈ (resolver.resolve context payload w.outside).calls,
        call ∈ (evaluate registry context (registry.split raw) w).calls.filterMap Entry.lookup? := by
  rw [evaluate] at done
  obtain ⟨resolved, fetched, done⟩ := Traced.bind_outcome_ok.mp done
  obtain ⟨coerced, applied, done⟩ := Traced.bind_outcome_ok.mp done
  obtain ⟨given, origin⟩ := resolved
  cases done
  cases found : registry.resolver? (registry.split raw).stem with
  | none => rw [found] at fetched; cases fetched
  | some pair =>
    obtain ⟨resolver, payload⟩ := pair
    rw [found] at fetched applied
    obtain ⟨_, checked, resolves⟩ := Traced.bind_outcome_ok.mp fetched
    refine ⟨resolver, payload, given, _, rfl, resolves, applied, fun call asked => ?_⟩
    rw [evaluate, found, Traced.bind_of_ok fetched, fetch, Traced.bind_of_ok checked, note_bind]
    have entry : ⟨.lookup call, w.stack⟩ ∈ (lift (resolver.resolve context payload) w).calls :=
      List.mem_map_of_mem asked
    refine List.mem_filterMap.mpr ⟨⟨.lookup call, w.stack⟩, ?_, rfl⟩
    exact List.mem_append_left _ (List.mem_append_right _ (List.mem_cons_of_mem _ entry))

theorem evaluate_of_resolve {raw payload : String} {resolver : Resolver σ} {resolved : Resolved}
    {w : Walk σ} (split : registry.split raw = ⟨raw, []⟩)
    (found : registry.resolver? raw = some (resolver, payload))
    (checked : (context.check w.outside).outcome = .ok ())
    (resolves : (resolver.resolve context payload w.outside).outcome = .ok resolved) :
    (evaluate registry context (registry.split raw) w).outcome = .ok resolved := by
  have fetched : (fetch context raw (some (resolver, payload)) w).outcome = .ok resolved := by
    have checked : (lift context.check w).outcome = .ok () := checked
    rw [fetch, Traced.bind_of_ok checked]
    exact resolves
  rw [split, evaluate, found, Traced.bind_of_ok fetched]
  rfl

end Expansion

namespace Builtin
open Expansion
variable {σ : Type} {context : Context σ} {S : σ → Prop} {world : World}

theorem variableSource_inj {a b : String} (same : variableSource a = variableSource b) : a = b := by
  simpa [variableSource] using same

theorem canonical_of_fileSource {files : Files} {a b : String}
    (same : fileSource files a = fileSource files b) :
    (files.canonical? a).getD a = (files.canonical? b).getD b := by
  simpa [fileSource] using same

/-- Variables, files and secrets have no sources in common. -/
theorem sources_apart (files : Files) (name path payload : String) :
    variableSource name ≠ fileSource files path ∧
      variableSource name ≠ (SecretRef.ofText payload).source ∧
      fileSource files path ≠ (SecretRef.ofText payload).source := by
  have secret : ∃ rest, (SecretRef.ofText payload).source = "vault:" ++ rest := by
    simp only [SecretRef.source]
    split
    · next mount _ =>
      exact ⟨mount ++ ("/" ++ (SecretRef.ofText payload).path), by simp [toString, String.append_assoc]⟩
    · exact ⟨_, rfl⟩
  obtain ⟨rest, secret⟩ := secret
  rw [secret]
  refine ⟨fun same => ?_, fun same => ?_, fun same => ?_⟩ <;>
    simpa [variableSource, fileSource] using congrArg (fun text => text.toList.head?) same

/-- None of the names of coercions stands at the end of the text. -/
def Unsuffixed (text : String) : Prop :=
  ∀ name ∈ [integerName, durationName], ¬ ':' :: ':' :: name.toList <:+ text.toList

/-- The order in which the tokens are tried. -/
theorem byLength_resolvers : Registry.byLength (resolvers : List (Resolver σ)) =
    [secretResolver, optionalEnvironmentResolver, environmentResolver, optionalFileResolver, fileResolver] :=
  rfl

/-- No token begins another, so each finds its own resolver. -/
theorem resolver?_token {resolver : Resolver σ} (member : resolver ∈ (resolvers : List (Resolver σ)))
    (payload : String) :
    (registry : Registry σ).resolver? (resolver.token ++ payload) = some (resolver, payload) := by
  rw [Registry.resolver?, registry, byLength_resolvers]
  simp only [resolvers, List.mem_cons, List.not_mem_nil, or_false] at member
  rcases member with rfl | rfl | rfl | rfl | rfl <;>
    simp [Registry.firstMatch, Registry.payload?,
      environmentResolver, optionalEnvironmentResolver, fileResolver, optionalFileResolver, secretResolver,
      envToken, optionalEnvToken, fileToken, optionalFileToken, secretToken]

theorem resolver?_file (path : String) :
    (registry : Registry σ).resolver? (fileToken ++ path) = some (fileResolver, path) :=
  @resolver?_token σ fileResolver (by simp [resolvers]) path

theorem resolver?_env (name : String) :
    (registry : Registry σ).resolver? (envToken ++ name) = some (environmentResolver, name) :=
  @resolver?_token σ environmentResolver (by simp [resolvers]) name

theorem split_of_unsuffixed {token rest : String} (colonless : ':' ∉ token.toList)
    (unsuffixed : Unsuffixed rest) :
    (registry : Registry σ).split (token ++ rest) = ⟨token ++ rest, []⟩ := by
  refine Split.ofText_of_unsuffixed fun name member suffix => unsuffixed name member ?_
  rw [String.toList_append] at suffix
  exact Split.suffix_of_append colonless suffix

theorem isPlain_file {path : String} (unsuffixed : Unsuffixed path) :
    ¬ isPlain (registry : Registry σ) (fileToken ++ path) = true := by
  simp [isPlain, split_of_unsuffixed (show ':' ∉ fileToken.toList by decide) unsuffixed, resolver?_file]

theorem isPlain_env {name : String} (unsuffixed : Unsuffixed name) :
    ¬ isPlain (registry : Registry σ) (envToken ++ name) = true := by
  simp [isPlain, split_of_unsuffixed (show ':' ∉ envToken.toList by decide) unsuffixed, resolver?_env]

/-- A text without colons and arrows is no directive. -/
theorem isPlain_of_unmarked {text : String} (colon : ':' ∉ text.toList) (arrow : '>' ∉ text.toList) :
    isPlain (registry : Registry σ) text = true := by
  have parts : (registry : Registry σ).split text = ⟨text, []⟩ :=
    Split.ofText_of_unsuffixed fun name _ suffix => colon (suffix.subset List.mem_cons_self)
  have unmatched : (registry : Registry σ).resolver? text = none := by
    have arrows : ∀ token ∈ [envToken, optionalEnvToken, fileToken, optionalFileToken, secretToken],
        '>' ∈ token.toList := by decide
    cases found : (registry : Registry σ).resolver? text with
    | none => rfl
    | some pair =>
      obtain ⟨member, matched⟩ := Registry.mem_of_resolver? found
      have within : '>' ∈ pair.1.token.toList := arrows _ (List.mem_map_of_mem member)
      simp only [Registry.payload?] at matched
      split at matched
      · next starts => exact absurd ((List.isPrefixOf_iff_prefix.mp starts).subset within) arrow
      · cases matched
  simp [isPlain, parts, unmatched]

/-- What a coercion accepts holds no directive. -/
theorem settled_of_apply {coercion : Coercion σ} (member : coercion ∈ (coercions : List (Coercion σ)))
    {t v : Tree} {s : σ} (done : (coercion.apply t s).outcome = .ok v) :
    Settled (registry : Registry σ) t := by
  have bare (none : t.texts = []) : Settled (registry : Registry σ) t := by
    intro text member
    rw [none] at member
    cases member
  have plain {text : String} (same : t = .text text) (unmarked : ∀ {c}, c = ':' ∨ c = '>' →
      c ∉ text.toList) : Settled (registry : Registry σ) t := by
    subst same
    intro text member
    rw [List.mem_singleton.mp member]
    exact isPlain_of_unmarked (unmarked (.inl rfl)) (unmarked (.inr rfl))
  simp only [coercions, List.mem_cons, List.not_mem_nil, or_false] at member
  rcases member with rfl | rfl
  · cases t with
    | integer i => exact bare rfl
    | text text =>
      cases read : Integer.int64OfText text with
      | ok i => exact plain rfl (Integer.not_mem_of_int64OfText read)
      | error malformed => simp [toInteger, read, Traced.ofExcept, Traced.fail] at done
    | _ => simp [toInteger, Traced.ofExcept, Traced.fail] at done
  · cases t with
    | duration d => exact bare rfl
    | integer i => exact bare rfl
    | text text =>
      cases read : Duration.ofText text with
      | ok d => exact plain rfl (Duration.not_mem_of_ofText read)
      | error malformed => simp [toDuration, read, Traced.ofExcept, Traced.fail] at done
    | _ => simp [toDuration, Traced.ofExcept, Traced.fail] at done

theorem settled_of_coerce {names : List String} {value v : Tree} {w : Walk σ}
    (known : (registry : Registry σ).Knows names)
    (done : (coerce registry names value w).outcome = .ok v) :
    v = value ∨ Settled (registry : Registry σ) value := by
  cases names with
  | nil =>
    cases done
    exact .inl rfl
  | cons name rest =>
    obtain ⟨coercion, member, rfl, found⟩ := known name List.mem_cons_self
    cases applied : (coercion.apply value w.outside).outcome with
    | ok v => exact .inr (settled_of_apply member applied)
    | error f => rw [coerce_cons_of_error found applied] at done; cases done

/-- In all states of the set the world is this one, the token is live, and the store answers as a
function of its arguments. -/
structure Fixed (context : Context σ) (S : σ → Prop) (world : World) : Prop where
  world : ∀ {s}, S s → context.world s = world
  live : ∀ {s}, S s → context.token.ended? (context.moment s) = none
  read : ∀ {store}, context.secrets = some store → ∀ path mount,
    Traced.Steady S (store.read context.token path mount)

namespace Fixed

theorem check (fixed : Fixed context S world) {s : σ} (h : S s) : context.check s = ⟨.ok (), s, []⟩ := by
  simp [Context.check, Cancel.Token.check, fixed.live h]

theorem steady (fixed : Fixed context S world) : (registry : Registry σ).Steady context S := by
  refine registry_steady (fun h h' => (fixed.world h).trans (fixed.world h').symm)
    ⟨fun h h' => ?_, fun h => ?_⟩ fun store found => fixed.read found
  · rw [fixed.check h, fixed.check h']
    exact ⟨rfl, rfl⟩
  · rwa [fixed.check h]

/-- Without secrets there is nothing but the world, and it is as it is. -/
theorem ofWorlds (world : World) : Fixed (Context.ofWorlds none) (· = world) world where
  world h := h
  live _ := rfl
  read found := nomatch found

theorem origin (fixed : Fixed context S world) {s : σ} (h : S s) {resolver : Resolver σ}
    (member : resolver ∈ (resolvers : List (Resolver σ))) {payload source : String} {t : Tree}
    (done : (resolver.resolve context payload s).outcome = .ok ⟨t, some source⟩) :
    (source = variableSource payload ∧
        t = .text ((world.environment.text? payload).getD "")) ∨
      (source = fileSource world.files payload ∧ Source.read world.files payload = .ok t ∧
        .file payload ∈ (resolver.resolve context payload s).calls) ∨
      source = (SecretRef.ofText payload).source := by
  obtain rfl := fixed.world h
  have live : (context.check s).outcome = .ok () := by rw [fixed.check h]
  simp only [resolvers, List.mem_cons, List.not_mem_nil, or_false] at member
  rcases member with rfl | rfl | rfl | rfl | rfl
  · rcases (context.world s).environment.unset_or_set payload with unset | ⟨value, set, full⟩
    · rw [environmentResolver_of_unset unset] at done
      cases done
    · rw [environmentResolver_of_set set full] at done
      cases done
      exact .inl ⟨rfl, by rw [set]; rfl⟩
  · cases done
    exact .inl ⟨rfl, rfl⟩
  · cases read : Source.read (context.world s).files payload with
    | error problem =>
      rw [fileResolver_of_problem live read] at done
      cases done
    | ok t =>
      rw [fileResolver_of_read live read] at done ⊢
      cases done
      exact .inr (.inl ⟨rfl, rfl, List.mem_singleton_self _⟩)
  · cases read : Source.read (context.world s).files payload with
    | error problem =>
      cases there : problem.isNotFound with
      | true =>
        rw [optionalFileResolver_of_notFound live read there] at done
        cases done
      | false =>
        rw [optionalFileResolver_of_problem live read there] at done
        cases done
    | ok t =>
      rw [optionalFileResolver_of_read live read] at done ⊢
      cases done
      exact .inr (.inl ⟨rfl, rfl, List.mem_singleton_self _⟩)
  · cases stored : context.secrets with
    | none => simp [secretResolver, stored, Traced.fail] at done
    | some store =>
      simp only [secretResolver, stored] at done
      obtain ⟨_, _, done⟩ := Traced.bind_outcome_ok.mp done
      obtain ⟨_, _, done⟩ := Traced.bind_outcome_ok.mp done
      obtain ⟨fields, _, done⟩ := Traced.bind_outcome_ok.mp done
      cases done
      exact .inr (.inr rfl)

theorem evaluate_file (fixed : Fixed context S world) {path : String} {t : Tree}
    (read : Source.read world.files path = .ok t) (unsuffixed : Unsuffixed path) {w : Walk σ}
    (h : S w.outside) :
    (evaluate registry context ((registry : Registry σ).split (fileToken ++ path)) w).outcome =
      .ok ⟨t, some (fileSource world.files path)⟩ := by
  obtain rfl := fixed.world h
  have live : (context.check w.outside).outcome = .ok () := by rw [fixed.check h]
  refine evaluate_of_resolve (split_of_unsuffixed (by decide) unsuffixed) (resolver?_file path) live ?_
  rw [fileResolver_of_read live read]

theorem evaluate_env (fixed : Fixed context S world) {name value : String}
    (set : world.environment.text? name = some value) (full : value ≠ "") (unsuffixed : Unsuffixed name)
    {w : Walk σ} (h : S w.outside) :
    (evaluate registry context ((registry : Registry σ).split (envToken ++ name)) w).outcome =
      .ok ⟨.text value, some (variableSource name)⟩ := by
  obtain rfl := fixed.world h
  have live : (context.check w.outside).outcome = .ok () := by rw [fixed.check h]
  refine evaluate_of_resolve (split_of_unsuffixed (by decide) unsuffixed) (resolver?_env name) live ?_
  rw [environmentResolver_of_set set full]

end Fixed
end Builtin
end Directives
