/-! Directive texts: a stem and the names of coercions, written `stem::first::second`. Names are
taken off the right end one at a time, always leaving as much as possible. -/
namespace Directives

/-- A text taken apart. The coercions stand in the order in which they apply. -/
structure Split where
  stem : String
  coercions : List String
  deriving DecidableEq, Repr

namespace Split

/-- What stands before `::name` at the end of a text. -/
def before? (name : String) (text : List Char) : Option (List Char) :=
  let ending := ':' :: ':' :: name.toList
  if ending.isSuffixOf text then some (text.take (text.length - ending.length)) else none

theorem before?_eq_some_iff {name : String} {text rest : List Char} :
    before? name text = some rest ↔ text = rest ++ ':' :: ':' :: name.toList := by
  simp only [before?]
  split
  · next h =>
    obtain ⟨init, rfl⟩ := List.isSuffixOf_iff_suffix.1 h
    simp only [List.length_append, Nat.add_sub_cancel, List.take_left', Option.some.injEq]
    exact ⟨fun e => e ▸ rfl, fun e => List.append_cancel_right e⟩
  · next h =>
    constructor
    · intro e
      cases e
    · rintro rfl
      exact absurd (List.isSuffixOf_iff_suffix.2 (List.suffix_append _ _)) h

/-- A stem has at least one character and lies on one line. -/
def isStem (text : List Char) : Bool := !text.isEmpty && !text.contains '\n'

/-- Takes one name off the end, the one that leaves the longest stem. -/
def peel? (text : List Char) : List String → Option (List Char × String)
  | [] => none
  | name :: names =>
    match (before? name text).filter isStem, peel? text names with
    | some rest, some (other, otherName) =>
      if rest.length < other.length then some (other, otherName) else some (rest, name)
    | some rest, none => some (rest, name)
    | none, found => found

theorem peel?_sound {text : List Char} {names : List String} {rest : List Char} {name : String}
    (h : peel? text names = some (rest, name)) :
    name ∈ names ∧ text = rest ++ ':' :: ':' :: name.toList ∧ isStem rest = true := by
  induction names with
  | nil => cases h
  | cons head tail ih =>
    have here {r : List Char} (e : (before? head text).filter isStem = some r) :
        text = r ++ ':' :: ':' :: head.toList ∧ isStem r = true := by
      obtain ⟨found, stem⟩ := Option.filter_eq_some_iff.1 e
      exact ⟨before?_eq_some_iff.1 found, stem⟩
    simp only [peel?] at h
    split at h
    · next e f =>
      split at h
      · cases h
        obtain ⟨member, shape⟩ := ih f
        exact ⟨List.mem_cons_of_mem _ member, shape⟩
      · cases h
        exact ⟨List.mem_cons_self, here e⟩
    · next e _ =>
      cases h
      exact ⟨List.mem_cons_self, here e⟩
    · obtain ⟨member, shape⟩ := ih h
      exact ⟨List.mem_cons_of_mem _ member, shape⟩

theorem peel?_eq_none_iff {text : List Char} {names : List String} :
    peel? text names = none ↔
      ∀ name ∈ names, ∀ rest, text = rest ++ ':' :: ':' :: name.toList → isStem rest = false := by
  induction names with
  | nil => simp [peel?]
  | cons head tail ih =>
    have here : (before? head text).filter isStem = none ↔
        ∀ rest, text = rest ++ ':' :: ':' :: head.toList → isStem rest = false := by
      simp only [Option.filter_eq_none_iff, before?_eq_some_iff, Bool.not_eq_true]
    rw [List.forall_mem_cons, ← here, ← ih, peel?]
    cases (before? head text).filter isStem with
    | none => simp
    | some rest =>
      cases peel? text tail with
      | none => simp
      | some other =>
        dsimp only
        split <;> simp

theorem peel?_shorter {text : List Char} {names : List String} {rest : List Char} {name : String}
    (h : peel? text names = some (rest, name)) : rest.length < text.length := by
  obtain ⟨_, shape, _⟩ := peel?_sound h
  rw [shape]
  simp

/-- Takes off names until none fits; `later` holds those already taken. -/
def peelAll (names : List String) (text : List Char) (later : List String) :
    List Char × List String :=
  match h : peel? text names with
  | none => (text, later)
  | some (rest, name) =>
    have := peel?_shorter h
    peelAll names rest (name :: later)
termination_by text.length

/-- Takes a text apart by the names of the known coercions. -/
def ofText (names : List String) (text : String) : Split :=
  let (stem, coercions) := peelAll names text.toList []
  ⟨String.ofList stem, coercions⟩

theorem suffix_peelAll (names : List String) (text : List Char) (later : List String) :
    later <:+ (peelAll names text later).2 := by
  fun_induction peelAll names text later with
  | case1 => exact List.suffix_rfl
  | case2 text later rest name found _ ih => exact (List.suffix_cons name later).trans ih

theorem ofText_of_peel?_eq_none {names : List String} {text : String}
    (fits : peel? text.toList names = none) : ofText names text = ⟨text, []⟩ := by
  have whole : peelAll names text.toList [] = (text.toList, []) := by
    unfold peelAll
    split
    · rfl
    · next found => cases fits.symm.trans found
  simp [ofText, whole]

theorem coercions_ofText_eq_nil_iff {names : List String} {text : String} :
    (ofText names text).coercions = [] ↔ peel? text.toList names = none := by
  constructor
  · intro bare
    cases found : peel? text.toList names with
    | none => rfl
    | some taken =>
      have kept : [taken.2] <:+ (peelAll names taken.1 [taken.2]).2 := suffix_peelAll names _ _
      have once : peelAll names text.toList [] = peelAll names taken.1 [taken.2] := by
        conv => lhs; unfold peelAll
        split
        · next none => cases found.symm.trans none
        · next some => cases found.symm.trans some; rfl
      have empty : (peelAll names taken.1 [taken.2]).2 = [] := once ▸ bare
      rw [empty] at kept
      cases List.suffix_nil.mp kept
  · intro fits
    rw [ofText_of_peel?_eq_none fits]

theorem mem_of_peelAll {names : List String} {text : List Char} {later : List String} {name : String}
    (member : name ∈ (peelAll names text later).2) : name ∈ names ∨ name ∈ later := by
  fun_induction peelAll names text later with
  | case1 => exact .inr member
  | case2 text later rest peeled found _ ih =>
    rcases ih member with known | member
    · exact .inl known
    · rcases List.mem_cons.1 member with rfl | member
      · exact .inl (peel?_sound found).1
      · exact .inr member

/-- Only known coercions are taken off. -/
theorem mem_of_ofText {names : List String} {text name : String}
    (member : name ∈ (ofText names text).coercions) : name ∈ names :=
  (mem_of_peelAll member).resolve_right List.not_mem_nil

end Split
end Directives
