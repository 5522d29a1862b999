import Mathlib.Data.List.Induction
import Directives.Directive.Split

/-! What it means to take a text apart. The names come off the right end one at a time, each time the one
that leaves most, until none fits; and that settles the stem and the names. The names are a set: in which
order they are known, and how often, makes no difference. -/
namespace Directives.Split

/-- The text that was taken apart. -/
def text (s : Split) : String := s.coercions.foldl (fun text name => text ++ "::" ++ name) s.stem

/-- What may stand before a name: it has a character and lies on one line. -/
def Stem (text : String) : Prop := text ≠ "" ∧ '\n' ∉ text.toList

/-- A name comes off the end of a text, and no other leaves more. -/
structure Takes (names : List String) (text rest name : String) : Prop where
  known : name ∈ names
  whole : text = rest ++ "::" ++ name
  stem : Stem rest
  longest : ∀ other ∈ names, ∀ left, Stem left → text = left ++ "::" ++ other →
    left.length ≤ rest.length

section
variable {names names' : List String} {text rest name : String}

theorem text_concat (stem : String) (coercions : List String) (name : String) :
    Split.text ⟨stem, coercions ++ [name]⟩ = Split.text ⟨stem, coercions⟩ ++ "::" ++ name := by
  simp only [Split.text, List.foldl_append, List.foldl_cons, List.foldl_nil]

theorem isStem_iff {chars : List Char} : isStem chars = true ↔ Stem (String.ofList chars) := by
  simp [isStem, Stem, ← String.toList_inj]

theorem written_iff {chars : List Char} :
    text = String.ofList chars ++ "::" ++ name ↔ text.toList = chars ++ ':' :: ':' :: name.toList := by
  simp [← String.toList_inj]

theorem Takes.shorter (takes : Takes names text rest name) : rest.length < text.length := by
  have colons : "::".length = 2 := rfl
  rw [takes.whole, String.length_append, String.length_append, colons]
  omega

theorem Takes.unique {rest' name' : String} (takes : Takes names text rest name)
    (takes' : Takes names text rest' name') : rest = rest' ∧ name = name' := by
  have long : rest.toList.length = rest'.toList.length :=
    Nat.le_antisymm (takes'.longest name takes.known rest takes.stem takes.whole)
      (takes.longest name' takes'.known rest' takes'.stem takes'.whole)
  have same := takes.whole.symm.trans takes'.whole
  simp only [← String.toList_inj, String.toList_append, List.append_assoc] at same ⊢
  obtain ⟨left, right⟩ := List.append_inj same long
  exact ⟨left, List.append_cancel_left right⟩

/-- Only membership counts among the names. -/
theorem Takes.congr (same : ∀ name, name ∈ names' ↔ name ∈ names) (takes : Takes names text rest name) :
    Takes names' text rest name where
  known := (same name).mpr takes.known
  whole := takes.whole
  stem := takes.stem
  longest other member := takes.longest other ((same other).mp member)

/-- What is peeled off leaves the longest stem. -/
theorem length_le_of_peel? {text rest : List Char} {name : String}
    (taken : peel? text names = some (rest, name)) :
    ∀ other ∈ names, ∀ left, text = left ++ ':' :: ':' :: other.toList → isStem left = true →
      left.length ≤ rest.length := by
  induction names generalizing rest name with
  | nil => cases taken
  | cons head tail ih =>
    have here {left : List Char} (whole : text = left ++ ':' :: ':' :: head.toList)
        (stem : isStem left = true) : (before? head text).filter isStem = some left :=
      Option.filter_eq_some_iff.mpr ⟨before?_eq_some_iff.mpr whole, stem⟩
    have only {left first : List Char} (found : (before? head text).filter isStem = some first)
        (whole : text = left ++ ':' :: ':' :: head.toList) (stem : isStem left = true) :
        left.length ≤ first.length :=
      Nat.le_of_eq (congrArg List.length (Option.some.inj ((here whole stem).symm.trans found)))
    rw [List.forall_mem_cons]
    simp only [peel?] at taken
    split at taken
    · next first other otherName found later =>
      split at taken
      · next longer =>
        cases taken
        exact ⟨fun left whole stem => Nat.le_of_lt (Nat.lt_of_le_of_lt (only found whole stem) longer),
          ih later⟩
      · next shorter =>
        cases taken
        exact ⟨fun left => only found, fun name member left whole stem =>
          Nat.le_trans (ih later name member left whole stem) (Nat.le_of_not_lt shorter)⟩
    · next first found none =>
      cases taken
      refine ⟨fun left => only found, fun name member left whole stem => ?_⟩
      cases (peel?_eq_none_iff.mp none name member left whole).symm.trans stem
    · next none =>
      refine ⟨fun left whole stem => ?_, ih taken⟩
      cases none.symm.trans (here whole stem)

theorem takes_of_peel? {left : List Char} (taken : peel? text.toList names = some (left, name)) :
    Takes names text (String.ofList left) name := by
  obtain ⟨known, whole, stem⟩ := peel?_sound taken
  refine ⟨known, written_iff.mpr whole, isStem_iff.mp stem, fun other member rest stem whole => ?_⟩
  rw [← String.ofList_toList (s := rest)] at stem whole
  have long := length_le_of_peel? taken other member rest.toList (written_iff.mp whole)
    (isStem_iff.mpr stem)
  rwa [String.length_ofList, ← String.length_toList]

/-- Nothing comes off where no name stands behind a stem. -/
theorem peel?_eq_none_of_not_takes : peel? text.toList names = none ↔
    ∀ name ∈ names, ∀ rest, Stem rest → text ≠ rest ++ "::" ++ name := by
  rw [peel?_eq_none_iff]
  constructor
  · intro fits name member rest stem whole
    rw [← String.ofList_toList (s := rest)] at stem whole
    cases (fits name member rest.toList (written_iff.mp whole)).symm.trans (isStem_iff.mpr stem)
  · intro fits name member left whole
    refine Bool.eq_false_iff.mpr fun stem => ?_
    exact fits name member _ (isStem_iff.mp stem) (written_iff.mpr whole)

theorem peelAll_of_none {text : List Char} (fits : peel? text names = none) (later : List String) :
    peelAll names text later = (text, later) := by
  unfold peelAll
  split
  · rfl
  · next found => cases fits.symm.trans found

theorem peelAll_of_some {text rest : List Char} (taken : peel? text names = some (rest, name))
    (later : List String) : peelAll names text later = peelAll names rest (name :: later) := by
  conv => lhs; unfold peelAll
  split
  · next none => cases taken.symm.trans none
  · next found =>
    cases taken.symm.trans found
    rfl

/-- The names that are known to come later stay behind those that are taken off. -/
theorem peelAll_append (text : List Char) (later : List String) :
    peelAll names text later = ((peelAll names text []).1, (peelAll names text []).2 ++ later) := by
  induction long : text.length using Nat.strongRecOn generalizing text later with
  | ind length ih =>
    subst long
    cases found : peel? text names with
    | none => simp [peelAll_of_none found]
    | some taken =>
      obtain ⟨rest, name⟩ := taken
      have shorter := ih rest.length (peel?_shorter found) rest
      rw [peelAll_of_some found, peelAll_of_some found, shorter (name :: later) rfl, shorter [name] rfl]
      simp

/-- A text from whose end no name comes off is a stem as a whole. -/
theorem ofText_of_not_takes (fits : ∀ name ∈ names, ∀ rest, Stem rest → text ≠ rest ++ "::" ++ name) :
    ofText names text = ⟨text, []⟩ :=
  ofText_of_peel?_eq_none (peel?_eq_none_of_not_takes.mpr fits)

/-- From where a name comes off, the rest is taken apart by itself. -/
theorem ofText_of_takes (takes : Takes names text rest name) :
    ofText names text = ⟨(ofText names rest).stem, (ofText names rest).coercions ++ [name]⟩ := by
  cases found : peel? text.toList names with
  | none => exact absurd takes.whole (peel?_eq_none_of_not_takes.mp found name takes.known rest takes.stem)
  | some taken =>
    obtain ⟨left, other⟩ := taken
    obtain ⟨rfl, rfl⟩ := (takes_of_peel? found).unique takes
    simp only [ofText, peelAll_of_some found, peelAll_append left [other], String.toList_ofList]

/-- What holds of texts from which no name comes off, and is handed on to a text from what is left when a
name comes off, holds of all texts. -/
theorem taking_apart {P : String → Prop} (names : List String)
    (whole : ∀ text, (∀ name ∈ names, ∀ rest, Stem rest → text ≠ rest ++ "::" ++ name) → P text)
    (taken : ∀ text rest name, Takes names text rest name → P rest → P text) (text : String) : P text := by
  induction long : text.length using Nat.strongRecOn generalizing text with
  | ind length ih =>
    subst long
    cases found : peel? text.toList names with
    | none => exact whole text (peel?_eq_none_of_not_takes.mp found)
    | some pair =>
      have takes := takes_of_peel? found
      exact taken text _ _ takes (ih _ takes.shorter _ rfl)

/-- The parts of a text make up the text, each name comes off behind those before it, and no name comes off
the stem. -/
structure Parses (names : List String) (text : String) (s : Split) : Prop where
  written : s.text = text
  takes : ∀ before name after, s.coercions = before ++ name :: after →
    Takes names (Split.text ⟨s.stem, before ++ [name]⟩) (Split.text ⟨s.stem, before⟩) name
  maximal : ∀ name ∈ names, ∀ rest, Stem rest → s.stem ≠ rest ++ "::" ++ name

theorem parses_ofText (names : List String) (text : String) : Parses names text (ofText names text) := by
  induction text using taking_apart names with
  | whole text fits =>
    rw [ofText_of_not_takes fits]
    exact ⟨rfl, by simp, fits⟩
  | taken text rest name takes ih =>
    rw [ofText_of_takes takes]
    refine ⟨?_, fun before other after split => ?_, ih.maximal⟩
    · rw [text_concat, takes.whole]
      exact congrArg (· ++ "::" ++ name) ih.written
    · rcases List.eq_nil_or_concat after with rfl | ⟨later, last, rfl⟩
      · obtain ⟨rfl, rfl⟩ : (ofText names rest).coercions = before ∧ name = other := by simpa using split
        rw [text_concat, show Split.text ⟨(ofText names rest).stem, (ofText names rest).coercions⟩ = rest
          from ih.written, ← takes.whole]
        exact takes
      · refine ih.takes before other later ?_
        rw [List.concat_eq_append, ← List.cons_append, ← List.append_assoc] at split
        exact (List.append_inj' split rfl).1

theorem Parses.eq {s : Split} (parses : Parses names text s) : ofText names text = s := by
  obtain ⟨stem, coercions⟩ := s
  induction coercions using List.reverseRecOn generalizing text with
  | nil =>
    rw [← parses.written]
    exact ofText_of_not_takes parses.maximal
  | append_singleton coercions name ih =>
    have takes := parses.takes coercions name [] rfl
    have before : Parses names (Split.text ⟨stem, coercions⟩) ⟨stem, coercions⟩ :=
      ⟨rfl, fun before other after split => parses.takes before other (after ++ [name])
        ((congrArg (· ++ [name]) split).trans (List.append_assoc _ _ _)), parses.maximal⟩
    rw [← parses.written, ofText_of_takes takes, ih before]

/-- Taking a text apart gives the one stem and the one list of names that are as they should be. -/
theorem ofText_eq_iff {s : Split} : ofText names text = s ↔ Parses names text s :=
  ⟨fun same => same ▸ parses_ofText names text, Parses.eq⟩

theorem ofText_congr (same : ∀ name, name ∈ names' ↔ name ∈ names) (text : String) :
    ofText names' text = ofText names text := by
  obtain ⟨written, takes, maximal⟩ := parses_ofText names text
  exact Parses.eq ⟨written, fun before name after split => (takes before name after split).congr same,
    fun name member => maximal name ((same name).mp member)⟩

theorem stem_text {stem : String} {coercions : List String} (sound : Stem stem)
    (short : ∀ name ∈ coercions, '\n' ∉ name.toList) : Stem (Split.text ⟨stem, coercions⟩) := by
  induction coercions using List.reverseRecOn with
  | nil => exact sound
  | append_singleton coercions name ih =>
    obtain ⟨full, line⟩ := ih fun other member => short other (List.mem_append_left _ member)
    rw [text_concat]
    refine ⟨by simp [full], ?_⟩
    simp [line, short name]

/-- A name without colons stands behind the last colons. -/
theorem length_le_of_no_colon {left other : String} (plain : ':' ∉ name.toList)
    (same : rest ++ "::" ++ name = left ++ "::" ++ other) : left.length ≤ rest.length := by
  have colons : "::".toList = [':', ':'] := rfl
  simp only [← String.toList_inj, String.toList_append, List.append_assoc, colons] at same
  rw [← String.length_toList, ← String.length_toList]
  rcases List.append_eq_append_iff.mp same with ⟨between, longer, behind⟩ | ⟨between, shorter, _⟩
  · -- Colons of the other name that stand further right would be in this name.
    match between, behind with
    | [], _ => simp [longer]
    | [c], behind =>
      obtain ⟨_, inside⟩ : ':' = c ∧ name.toList = ':' :: other.toList := by simpa using behind
      simp [inside] at plain
    | c :: d :: later, behind =>
      obtain ⟨_, _, inside⟩ : ':' = c ∧ ':' = d ∧ name.toList = later ++ ':' :: ':' :: other.toList := by
        simpa using behind
      simp [inside] at plain
  · simp [shorter]

/-- Names without colons and line ends come off the end in a row. -/
theorem ofText_text {stem : String} {chain : List String} (sound : Stem stem)
    (whole : ofText names stem = ⟨stem, []⟩)
    (plain : ∀ name ∈ chain, name ∈ names ∧ ':' ∉ name.toList ∧ '\n' ∉ name.toList) :
    ofText names (Split.text ⟨stem, chain⟩) = ⟨stem, chain⟩ := by
  refine Parses.eq ⟨rfl, ?_, ?_⟩
  · rintro before name after rfl
    obtain ⟨known, colons, _⟩ := plain name (by simp)
    refine ⟨known, text_concat stem before name, stem_text sound fun other member => ?_, ?_⟩
    · exact (plain other (List.mem_append_left _ member)).2.2
    · intro other _ left _ same
      exact length_le_of_no_colon colons ((text_concat stem before name).symm.trans same)
  · exact (ofText_eq_iff.mp whole).maximal

/-- A text stays whole where each name at its end has nothing before it, or a line end. -/
theorem ofText_eq_self_iff : ofText names text = ⟨text, []⟩ ↔
    ∀ name ∈ names, ∀ rest, text = rest ++ "::" ++ name → rest = "" ∨ '\n' ∈ rest.toList := by
  have unfit (rest : String) : ¬ Stem rest ↔ rest = "" ∨ '\n' ∈ rest.toList := by
    rw [Stem, not_and_or, not_not, not_not]
  constructor
  · intro whole name member rest written
    exact (unfit rest).mp fun sound => (ofText_eq_iff.mp whole).maximal name member rest sound written
  · intro ends
    exact ofText_of_not_takes fun name member rest sound written =>
      (unfit rest).mpr (ends name member rest written) sound

/-! More in front of a text. -/

theorem text_lead (lead stem : String) (coercions : List String) :
    Split.text ⟨lead ++ stem, coercions⟩ = lead ++ Split.text ⟨stem, coercions⟩ := by
  induction coercions using List.reverseRecOn with
  | nil => rfl
  | append_singleton coercions name ih =>
    rw [text_concat, text_concat, ih, String.append_assoc, String.append_assoc, String.append_assoc]

theorem behind_lead {lead left other : String} (colonless : ':' ∉ lead.toList)
    (same : lead ++ text = left ++ "::" ++ other) :
    ∃ between, left = lead ++ between ∧ text = between ++ "::" ++ other := by
  have colons : "::".toList = [':', ':'] := rfl
  simp only [← String.toList_inj, String.toList_append, List.append_assoc, colons] at same
  rcases List.append_eq_append_iff.mp same with ⟨between, longer, behind⟩ | ⟨between, inside, behind⟩
  · refine ⟨String.ofList between, ?_, ?_⟩
    · simp [← String.toList_inj, longer]
    · simp [← String.toList_inj, behind]
  · cases between with
    | nil =>
      refine ⟨"", ?_, ?_⟩
      · simpa [← String.toList_inj] using inside.symm
      · simpa [← String.toList_inj] using behind.symm
    | cons c between =>
      obtain ⟨rfl, _⟩ : ':' = c ∧ ':' :: other.toList = between ++ text.toList := by simpa using behind
      simp [inside] at colonless

theorem stem_lead {lead : String} (line : '\n' ∉ lead.toList) (sound : Stem rest) : Stem (lead ++ rest) := by
  obtain ⟨full, ends⟩ := sound
  exact ⟨by simp [full], by simp [line, ends]⟩

theorem stem_of_lead {lead : String} (sound : Stem (lead ++ rest)) (full : rest ≠ "") : Stem rest :=
  ⟨full, fun ends => sound.2 (by simp [ends])⟩

theorem Takes.lead {lead : String} (colonless : ':' ∉ lead.toList) (line : '\n' ∉ lead.toList)
    (takes : Takes names text rest name) : Takes names (lead ++ text) (lead ++ rest) name where
  known := takes.known
  whole := by rw [takes.whole, String.append_assoc, String.append_assoc, String.append_assoc]
  stem := stem_lead line takes.stem
  longest other member left sound same := by
    obtain ⟨between, rfl, written⟩ := behind_lead colonless same
    rw [String.length_append, String.length_append]
    by_cases empty : between = ""
    · simp [empty]
    · exact Nat.add_le_add_left (takes.longest other member between (stem_of_lead sound empty) written) _

/-- In front of a stem that is no name behind colons, more may stand: the same names come off. -/
theorem ofText_lead {lead stem : String} {coercions : List String} (colonless : ':' ∉ lead.toList)
    (line : '\n' ∉ lead.toList) (parts : ofText names text = ⟨stem, coercions⟩)
    (begun : ∀ name, stem ≠ "::" ++ name) :
    ofText names (Split.text ⟨lead ++ stem, coercions⟩) = ⟨lead ++ stem, coercions⟩ := by
  have parses := ofText_eq_iff.mp parts
  refine Parses.eq ⟨rfl, fun before name after split => ?_, fun name member rest sound same => ?_⟩
  · rw [text_lead, text_lead]
    exact (parses.takes before name after split).lead colonless line
  · obtain ⟨between, rfl, written⟩ := behind_lead colonless same
    by_cases empty : between = ""
    · exact begun name (by simpa [empty] using written)
    · exact parses.maximal name member between (stem_of_lead sound empty) written

end

/-- Taking a text apart is settled by the set of names. The stem and the names make up the text, the names
from left to right. Behind the names before it, each name comes off so that the longest stem is left. No
name comes off the last stem: a text stays whole just where each name at its end has nothing before it or a
line end, so where none of the names has a line end, it stays whole with a line end before one at its end. In
which order the names are known, and how often each, does not count. And if names without colons and line
ends are written behind a stem of which no name comes off, just these come off again. -/
theorem ofText_grammar (names : List String) (text : String) :
    let split := ofText names text
    (Split.text split = text ∧ ∀ name ∈ split.coercions, name ∈ names) ∧
    (∀ before name after, split.coercions = before ++ name :: after →
      Takes names (Split.text ⟨split.stem, before ++ [name]⟩) (Split.text ⟨split.stem, before⟩) name) ∧
    ((∀ name ∈ names, ∀ rest, Stem rest → split.stem ≠ rest ++ "::" ++ name) ∧
      (split = ⟨text, []⟩ ↔
        ∀ name ∈ names, ∀ rest, text = rest ++ "::" ++ name → rest = "" ∨ '\n' ∈ rest.toList) ∧
      ∀ name ∈ names, ∀ rest, text = rest ++ "::" ++ name → '\n' ∈ rest.toList →
        (∀ other ∈ names, '\n' ∉ other.toList) → split = ⟨text, []⟩) ∧
    (∀ names', (∀ name, name ∈ names' ↔ name ∈ names) → ofText names' text = split) ∧
    (∀ stem chain, Stem stem → ofText names stem = ⟨stem, []⟩ →
      (∀ name ∈ chain, name ∈ names ∧ ':' ∉ name.toList ∧ '\n' ∉ name.toList) →
      ofText names (Split.text ⟨stem, chain⟩) = ⟨stem, chain⟩) := by
  intro split
  have parses : Parses names text split := parses_ofText names text
  refine ⟨⟨parses.written, fun name member => mem_of_ofText member⟩, parses.takes,
    ⟨parses.maximal, ofText_eq_self_iff, fun name known rest written broken lines => ?_⟩,
    fun names' same => ofText_congr same text, fun stem chain sound whole => ofText_text sound whole⟩
  refine ofText_eq_self_iff.mpr fun other member left same => .inr ?_
  -- The line end is not in the other name, so it stands before that too.
  have inside : '\n' ∈ text.toList := by simp [written, broken]
  rw [same] at inside
  simpa [lines other member] using inside

/-- A name with a line end comes off across it, though another name stands behind the line end. -/
theorem ofText_across_lines :
    let names := ["c", "b\nx::c"]
    let text := "a::b\nx::c"
    "c" ∈ names ∧ text = "a::b\nx" ++ "::" ++ "c" ∧ '\n' ∈ "a::b\nx".toList ∧
      ofText names text = ⟨"a", ["b\nx::c"]⟩ ∧ ofText names text ≠ ⟨text, []⟩ := by
  decide +kernel

end Directives.Split
