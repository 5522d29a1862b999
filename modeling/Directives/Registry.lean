import Directives.Cancel
import Directives.Directive.Split
import Directives.Run
import Directives.Tree
import Directives.World

/-! Resolvers, which fetch the value that a directive names; coercions, which change it; and the
registry that finds them by their tokens and names. -/
namespace Directives

structure SecretStore (σ : Type) where
  /-- The fields of the secret at a path, below a mount or the store's own. -/
  read : Cancel.Token → (path : String) → (mount : Option String) →
    Run σ Fault (List (String × Tree))

structure Context (σ : Type) where
  world : σ → World
  moment : σ → Cancel.Moment
  token : Cancel.Token
  secrets : Option (SecretStore σ) := none

/-- Refuses to go on when the token of the context is no longer live. -/
def Context.check {σ : Type} (context : Context σ) : Run σ Fault Unit := fun s =>
  ⟨context.token.check (context.moment s), s, []⟩

/-- A context whose states are worlds, under a token that stays live. -/
def Context.ofWorlds (secrets : Option (SecretStore World)) : Context World where
  world := id
  moment _ := {}
  token := { family := 0 }
  secrets := secrets

/-- A value and, where it has one, the name of the place it came from. -/
structure Resolved where
  value : Tree
  source : Option String := none

/-- Fetches the value for texts that begin with its token. -/
structure Resolver (σ : Type) where
  token : String
  resolve : Context σ → (payload : String) → Run σ Fault Resolved

/-- Changes a value, under a name that stands behind `::`. -/
structure Coercion (σ : Type) where
  name : String
  apply : Tree → Run σ Fault Tree

/-- Resolvers and coercions with distinct tokens and distinct names. -/
structure Registry (σ : Type) where
  resolvers : List (Resolver σ)
  coercions : List (Coercion σ)
  tokens_nodup : (resolvers.map Resolver.token).Nodup
  names_nodup : (coercions.map Coercion.name).Nodup

namespace Registry
variable {σ : Type}

/-- The first name that is equal to one before it; `seen` holds those before. -/
def firstRepeated (seen : List String) : List String → Option String
  | [] => none
  | name :: rest =>
    if name ∈ seen then some name else firstRepeated (name :: seen) rest

theorem nodup_of_firstRepeated {seen names : List String}
    (h : firstRepeated seen names = none) : names.Nodup ∧ ∀ name ∈ names, name ∉ seen := by
  induction names generalizing seen with
  | nil => simp
  | cons head tail ih =>
    simp only [firstRepeated] at h
    split at h
    · cases h
    · next fresh =>
      obtain ⟨nodup, apart⟩ := ih h
      refine ⟨List.nodup_cons.2 ⟨fun member => ?_, nodup⟩, fun name member => ?_⟩
      · exact apart head member List.mem_cons_self
      · rcases List.mem_cons.1 member with rfl | member
        · exact fresh
        · exact fun old => apart name member (List.mem_cons_of_mem _ old)

/-- Puts resolvers and coercions together. Of several repeated names the first is reported, a
resolver's token before any coercion's name. -/
def build (resolvers : List (Resolver σ)) (coercions : List (Coercion σ)) :
    Except Fault (Registry σ) :=
  match ht : firstRepeated [] (resolvers.map Resolver.token) with
  | some token => .error (.alreadyRegistered token)
  | none =>
    match hn : firstRepeated [] (coercions.map Coercion.name) with
    | some name => .error (.alreadyRegistered name)
    | none =>
      .ok ⟨resolvers, coercions, (nodup_of_firstRepeated ht).1, (nodup_of_firstRepeated hn).1⟩

def hasResolver (r : Registry σ) (token : String) : Bool := r.resolvers.any (·.token == token)

def hasCoercion (r : Registry σ) (name : String) : Bool := r.coercions.any (·.name == name)

def coercion? (r : Registry σ) (name : String) : Option (Coercion σ) :=
  r.coercions.find? (·.name == name)

def split (r : Registry σ) (text : String) : Split :=
  .ofText (r.coercions.map Coercion.name) text

/-- A coercion is found under every name that a text is split by. -/
theorem coercion?_of_split {r : Registry σ} {text name : String}
    (member : name ∈ (r.split text).coercions) :
    ∃ coercion ∈ r.coercions, coercion.name = name ∧ r.coercion? name = some coercion := by
  obtain ⟨known, listed, rfl⟩ := List.mem_map.1 (Split.mem_of_ofText member)
  cases found : r.coercion? known.name with
  | none =>
    have unequal := List.find?_eq_none.1 found known listed
    exact absurd (beq_self_eq_true known.name) unequal
  | some coercion =>
    have same := List.find?_some found
    exact ⟨coercion, List.mem_of_find?_eq_some found, by simpa using same, rfl⟩

def payload? (token stem : String) : Option String :=
  if token.toList.isPrefixOf stem.toList then
    some (String.ofList (stem.toList.drop token.toList.length))
  else none

theorem payload?_eq_some_iff {token stem payload : String} :
    payload? token stem = some payload ↔ stem = token ++ payload := by
  rw [payload?]
  constructor
  · intro found
    split at found
    · next starts =>
      obtain ⟨rest, whole⟩ := List.isPrefixOf_iff_prefix.mp starts
      cases found
      rw [← String.toList_inj]
      simp [← whole]
    · cases found
  · rintro rfl
    simp

/-- Puts a resolver before the first whose token is not longer. -/
def insertByLength (resolver : Resolver σ) : List (Resolver σ) → List (Resolver σ)
  | [] => [resolver]
  | head :: rest =>
    if head.token.utf8ByteSize ≤ resolver.token.utf8ByteSize then resolver :: head :: rest
    else head :: insertByLength resolver rest

/-- Resolvers in the order in which they are tried: longer tokens come first, and those as long as each
other keep their order. -/
def byLength : List (Resolver σ) → List (Resolver σ)
  | [] => []
  | resolver :: rest => insertByLength resolver (byLength rest)

/-- The first resolver whose token begins the stem, and the payload it is given. -/
def firstMatch : List (Resolver σ) → String → Option (Resolver σ × String)
  | [], _ => none
  | resolver :: rest, stem =>
    match payload? resolver.token stem with
    | some payload => some (resolver, payload)
    | none => firstMatch rest stem

def resolver? (r : Registry σ) (stem : String) : Option (Resolver σ × String) :=
  firstMatch (byLength r.resolvers) stem

theorem perm_insertByLength (resolver : Resolver σ) (resolvers : List (Resolver σ)) :
    (insertByLength resolver resolvers).Perm (resolver :: resolvers) := by
  induction resolvers with
  | nil => exact .refl _
  | cons head rest ih =>
    rw [insertByLength]
    split
    · exact .refl _
    · exact (ih.cons head).trans (.swap resolver head rest)

theorem perm_byLength (resolvers : List (Resolver σ)) : (byLength resolvers).Perm resolvers := by
  induction resolvers with
  | nil => exact .refl _
  | cons resolver rest ih => exact (perm_insertByLength resolver (byLength rest)).trans (ih.cons resolver)

theorem mem_of_firstMatch {resolvers : List (Resolver σ)} {stem payload : String} {resolver : Resolver σ}
    (found : firstMatch resolvers stem = some (resolver, payload)) :
    resolver ∈ resolvers ∧ payload? resolver.token stem = some payload := by
  induction resolvers with
  | nil => cases found
  | cons head rest ih =>
    rw [firstMatch] at found
    split at found
    · next here =>
      cases found
      exact ⟨List.mem_cons_self, here⟩
    · obtain ⟨member, matched⟩ := ih found
      exact ⟨List.mem_cons_of_mem _ member, matched⟩

theorem firstMatch_eq_none_iff {resolvers : List (Resolver σ)} {stem : String} :
    firstMatch resolvers stem = none ↔
      ∀ resolver ∈ resolvers, ∀ payload, stem ≠ resolver.token ++ payload := by
  induction resolvers with
  | nil => simp [firstMatch]
  | cons head rest ih =>
    have here : payload? head.token stem = none ↔ ∀ payload, stem ≠ head.token ++ payload := by
      simp only [Option.eq_none_iff_forall_ne_some, ne_eq, payload?_eq_some_iff]
    rw [List.forall_mem_cons, ← here, ← ih, firstMatch]
    cases payload? head.token stem <;> simp

theorem mem_of_resolver? {r : Registry σ} {stem payload : String} {resolver : Resolver σ}
    (found : r.resolver? stem = some (resolver, payload)) :
    resolver ∈ r.resolvers ∧ payload? resolver.token stem = some payload := by
  obtain ⟨member, matched⟩ := mem_of_firstMatch found
  exact ⟨(perm_byLength r.resolvers).mem_iff.mp member, matched⟩

theorem resolver?_eq_none_iff {r : Registry σ} {stem : String} :
    r.resolver? stem = none ↔ ∀ resolver ∈ r.resolvers, ∀ payload, stem ≠ resolver.token ++ payload := by
  rw [resolver?, firstMatch_eq_none_iff]
  simp only [(perm_byLength r.resolvers).mem_iff]

end Registry
end Directives
