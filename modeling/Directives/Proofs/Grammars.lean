import Mathlib.Data.List.Basic
import Directives.Directive.Grammar
import Directives.Proofs.Peeling

/-! The grammar of some names takes texts apart as these names do. Escaped, the names are read back from the
text of the pattern whatever characters they hold; and the first match that is found is the name that comes
off so that most is left. -/
namespace Directives

namespace Pattern
variable {names : List String} {p : Pattern} {text : List Char}

/-- A character that means nothing of its own is the next one of an alternative. -/
theorem alternatives?_cons {c : Char} (plain : isMeta c = false) (rest : List Char) :
    alternatives? (c :: rest) =
      (alternatives? rest).map fun (found, behind) => (lead [c] found, behind) := by
  have bracket : c ≠ ')' := by rintro rfl; cases plain
  have bar : c ≠ '|' := by rintro rfl; cases plain
  have backslash : c ≠ '\\' := by rintro rfl; cases plain
  rw [alternatives?]
  · simp [plain]
  · exact bracket
  · exact bar
  · intro _ _ same
    exact absurd same backslash

/-- An escaped text is read as that text, in front of what is read behind it. -/
theorem alternatives?_escape (name : List Char) {rest first behind : List Char} {others : List (List Char)}
    (read : alternatives? rest = some (first :: others, behind)) :
    alternatives? (escape name ++ rest) = some ((name ++ first) :: others, behind) := by
  induction name with
  | nil => exact read
  | cons c name ih =>
    by_cases special : isMeta c = true
    · rw [escape, if_pos special, List.cons_append, List.cons_append, alternatives?, if_pos special, ih]
      rfl
    · have plain : isMeta c = false := Bool.eq_false_iff.mpr special
      rw [escape, if_neg special, List.cons_append, alternatives?_cons plain, ih]
      rfl

theorem alternation_singleton (name : String) :
    (alternation [name]).toList = escape name.toList := by
  rw [alternation, List.map_singleton, String.intercalate_singleton, String.toList_ofList]

theorem alternation_cons_cons (name next : String) (names : List String) :
    (alternation (name :: next :: names)).toList =
      escape name.toList ++ '|' :: (alternation (next :: names)).toList := by
  have bar : "|".toList = ['|'] := rfl
  simp only [alternation, List.map_cons, String.intercalate_cons_cons, String.toList_append,
    String.toList_ofList, bar, List.append_assoc, List.singleton_append]

/-- Names between bars are read one by one. -/
theorem alternatives?_alternation (name : String) (names : List String) :
    alternatives? ((alternation (name :: names)).toList ++ [')', '$']) =
      some ((name :: names).map String.toList, ['$']) := by
  induction names generalizing name with
  | nil =>
    have closed : alternatives? [')', '$'] = some ([[]], ['$']) := rfl
    rw [alternation_singleton, alternatives?_escape name.toList closed, List.append_nil]
    rfl
  | cons next names ih =>
    have later : alternatives? ('|' :: ((alternation (next :: names)).toList ++ [')', '$'])) =
        some ([] :: (next :: names).map String.toList, ['$']) := by
      rw [alternatives?, ih next]
      rfl
    rw [alternation_cons_cons, List.append_assoc, List.cons_append, alternatives?_escape name.toList later,
      List.append_nil]
    rfl

/-- The pattern that is written for some names has just these as alternatives. -/
theorem read?_write (filled : names ≠ []) : read? (write names) = some ⟨names.map String.toList⟩ := by
  obtain ⟨name, rest, rfl⟩ := List.exists_cons_of_ne_nil filled
  have closing : ")$".toList = [')', '$'] := rfl
  have opened : opening.toList.isPrefixOf? (write (name :: rest)).toList =
      some ((alternation (name :: rest)).toList ++ [')', '$']) := by
    rw [List.isPrefixOf?_eq_some_iff_append_eq, write, String.toList_append, String.toList_append, closing,
      List.append_assoc]
  simp only [read?, opened, Option.bind_some, alternatives?_alternation]

/-- Where a line stands before an alternative, the search finds one for it. -/
theorem find?_of_written {line name : List Char} (member : name ∈ p.alternatives)
    (shape : text = line ++ ':' :: ':' :: name) (stem : Split.isStem line = true) :
    ∃ found, (if Split.isStem (text.take line.length) then
      p.alternatives.find? fun name => text.drop line.length == ':' :: ':' :: name else none) =
        some found := by
  rw [shape, List.take_left, List.drop_left, if_pos stem]
  cases found : p.alternatives.find? fun other => ':' :: ':' :: name == ':' :: ':' :: other with
  | some other => exact ⟨other, rfl⟩
  | none => exact absurd (beq_self_eq_true _) (List.find?_eq_none.mp found name member)

/-- No line before an alternative is longer than the one that is found, and where none is found there is
none. -/
theorem search?_longest {length : Nat} {line name : List Char} (member : name ∈ p.alternatives)
    (shape : text = line ++ ':' :: ':' :: name) (stem : Split.isStem line = true)
    (short : line.length ≤ length) :
    ∃ found other, p.search? text length = some (found, other) ∧ line.length ≤ found.length := by
  induction length with
  | zero =>
    obtain rfl := List.eq_nil_of_length_eq_zero (Nat.le_zero.mp short)
    cases stem
  | succ length ih =>
    simp only [search?]
    split
    · next other found =>
      refine ⟨_, other, rfl, ?_⟩
      rw [List.length_take, Nat.le_min, shape]
      exact ⟨short, by simp⟩
    · next none =>
      rcases Nat.lt_or_eq_of_le short with shorter | same
      · exact ih (Nat.le_of_lt_succ shorter)
      · obtain ⟨other, found⟩ := find?_of_written member shape stem
        rw [same] at found
        cases none.symm.trans found

/-- The first match that is found is the name that comes off so that most is left. -/
theorem captures?_eq_peel? (same : p.alternatives = names.map String.toList) (text : List Char) :
    p.captures? text = (Split.peel? text names).map fun (rest, name) => (rest, name.toList) := by
  have known {name : String} (member : name ∈ names) : name.toList ∈ p.alternatives :=
    same ▸ List.mem_map_of_mem member
  have fits {line name : List Char} (shape : text = line ++ ':' :: ':' :: name) :
      line.length ≤ text.length := by
    rw [shape]
    simp
  cases taken : Split.peel? text names with
  | none =>
    cases found : p.captures? text with
    | none => rfl
    | some pair =>
      obtain ⟨line, written⟩ := pair
      obtain ⟨member, shape, stem⟩ := search?_sound found
      obtain ⟨name, listed, rfl⟩ := List.mem_map.mp (same ▸ member)
      cases (Split.peel?_eq_none_iff.mp taken name listed line shape).symm.trans stem
  | some pair =>
    obtain ⟨rest, name⟩ := pair
    obtain ⟨listed, shape, stem⟩ := Split.peel?_sound taken
    obtain ⟨line, written, found, long⟩ := search?_longest (known listed) shape stem (fits shape)
    obtain ⟨member, shape', stem'⟩ := search?_sound found
    obtain ⟨other, listed', rfl⟩ := List.mem_map.mp (same ▸ member)
    have long' : line.length ≤ rest.length :=
      Split.length_le_of_peel? taken other listed' line shape' stem'
    obtain ⟨rfl, behind⟩ := List.append_inj (shape'.symm.trans shape) (Nat.le_antisymm long' long)
    rw [captures?, found, Option.map_some]
    exact congrArg (fun name => some (line, name)) (List.cons.inj (List.cons.inj behind).2).2

end Pattern

namespace Grammar
variable {names : List String} {g : Grammar}

theorem mergeSort_ne_nil (filled : ¬ names.isEmpty = true) : names.mergeSort (fun a b => a ≤ b) ≠ [] := by
  intro empty
  rw [← List.length_eq_zero_iff, List.length_mergeSort, List.length_eq_zero_iff] at empty
  exact filled (List.isEmpty_iff.mpr empty)

/-- Every set of names has a grammar. -/
theorem exists_ofNames? (names : List String) : ∃ g, ofNames? names = some g := by
  rw [ofNames?]
  split
  · exact ⟨_, rfl⟩
  · next filled =>
    rw [Pattern.read?_write (mergeSort_ne_nil filled)]
    exact ⟨_, rfl⟩

/-- A grammar takes off what the names do, in whatever order they are written down. -/
theorem captures?_eq_peel? (made : ofNames? names = some g) (text : List Char) :
    g.captures? text = (Split.peel? text (names.mergeSort fun a b => a ≤ b)).map
      fun (rest, name) => (rest, name.toList) := by
  rw [ofNames?] at made
  split at made
  · next empty =>
    cases made
    rw [List.isEmpty_iff.mp empty, List.mergeSort_nil]
    rfl
  · next filled =>
    rw [Pattern.read?_write (mergeSort_ne_nil filled)] at made
    cases made
    exact Pattern.captures?_eq_peel? rfl text

theorem peelAll_eq (made : ofNames? names = some g) (text : List Char) (later : List String) :
    g.peelAll text later = Split.peelAll (names.mergeSort fun a b => a ≤ b) text later := by
  fun_induction peelAll g text later with
  | case1 text later none =>
    rw [captures?_eq_peel? made, Option.map_eq_none_iff] at none
    rw [Split.peelAll_of_none none]
  | case2 text later line written found _ ih =>
    rw [captures?_eq_peel? made, Option.map_eq_some_iff] at found
    obtain ⟨⟨rest, name⟩, taken, same⟩ := found
    cases same
    rw [Split.peelAll_of_some taken, ih, String.ofList_toList]

/-- The grammar of some names takes every text apart as the names do. -/
theorem split_eq (made : ofNames? names = some g) (text : String) :
    g.split text = Split.ofText names text := by
  have sorted : ∀ name, name ∈ names.mergeSort (fun a b => a ≤ b) ↔ name ∈ names :=
    fun name => (List.mergeSort_perm names _).mem_iff
  rw [← Split.ofText_congr sorted text, split, Split.ofText, peelAll_eq made]

end Grammar
end Directives
