import Directives.Proofs.Chains
import Directives.Proofs.Fixpoint
import Directives.Proofs.Numerals
import Directives.Proofs.Origins
import Directives.Rendering

/-! Values that are written out and coerced back. The text of a duration counts each unit that occurs in it,
and is read as their sum, which never grows beyond the duration; the text of an integer is its decimal
notation. Neither has a colon or an arrow, so the name of the coercion comes off behind it. -/
namespace Directives

namespace Duration
variable {d total sum : Duration} {n nanos : Nat} {word : String} {entries : List (Nat × String)}

theorem toNanos_lt (d : Duration) : d.toNanos < 18446744073709551616 * nanosPerSecond := by
  have seconds := d.seconds_lt
  have nanos := d.nanos_lt
  simp only [toNanos, nanosPerSecond]
  omega

/-- What is less than a duration is a duration too. -/
theorem exists_of_le (le : n ≤ d.toNanos) : ∃ e : Duration, e.toNanos = n := by
  have few : n / 1000000000 < 18446744073709551616 := by
    have bound := toNanos_lt d
    simp only [nanosPerSecond] at bound
    omega
  refine ⟨⟨n / 1000000000, n % 1000000000, few, Nat.mod_lt _ (by decide)⟩, ?_⟩
  simp only [toNanos, nanosPerSecond]
  omega

/-! Counts of units. -/

/-- A number of a unit, by a name of the unit, is so many nanoseconds. Of a unit below the second there is less
than a second. -/
inductive Counts : Nat × String → Nat → Prop
  | seconds {n : Nat} {word : String} {unit : Unit} : Unit.ofWord? word = some unit → unit.nanos? = none →
    Counts (n, word) (n * unit.seconds * nanosPerSecond)
  | nanos {n scale : Nat} {word : String} {unit : Unit} : Unit.ofWord? word = some unit →
    unit.nanos? = some scale → n * scale < nanosPerSecond → Counts (n, word) (n * scale)

/-- Numbers of units are so many nanoseconds together. -/
inductive CountsAll : List (Nat × String) → Nat → Prop
  | nil : CountsAll [] 0
  | cons {entry : Nat × String} {rest : List (Nat × String)} {here later : Nat} : Counts entry here →
    CountsAll rest later → CountsAll (entry :: rest) (here + later)

theorem Counts.known (counts : Counts (n, word) nanos) : ∃ unit, Unit.ofWord? word = some unit := by
  cases counts with
  | seconds known _ => exact ⟨_, known⟩
  | nanos known _ _ => exact ⟨_, known⟩

/-- The number is one that the reader can hold. -/
theorem Counts.fits (counts : Counts (n, word) nanos) (le : nanos ≤ d.toNanos) : n < 18446744073709551616 := by
  have bound := toNanos_lt d
  simp only [nanosPerSecond] at bound
  cases counts with
  | @seconds _ _ unit _ long =>
    have positive : 1 ≤ unit.seconds := by
      cases unit <;> simp_all [Unit.nanos?, Unit.seconds]
    have most := Nat.mul_le_mul_left n positive
    simp only [nanosPerSecond] at le
    omega
  | @nanos _ scale _ unit _ short small =>
    have positive : 1 ≤ scale := by
      cases unit <;> simp_all [Unit.nanos?] <;> omega
    have most := Nat.mul_le_mul_left n positive
    simp only [nanosPerSecond] at small
    omega

theorem fitting_bind {α : Type} (small : n < 18446744073709551616) (next : Nat → Except Malformed α) :
    (fitting n >>= next) = next n := by
  rw [fitting, if_pos small]
  rfl

/-- A part is added, if the sum is a duration. -/
theorem plus_eq {seconds : Nat} (small : total.nanos + nanos < 18446744073709551616)
    (adds : sum.toNanos = total.toNanos + seconds * nanosPerSecond + nanos) :
    plus total seconds nanos = .ok sum := by
  have whole : (total.seconds + seconds) * nanosPerSecond + (total.nanos + nanos) = sum.toNanos := by
    rw [adds, toNanos, Nat.add_mul]
    omega
  have parts : ofParts? (total.seconds + seconds) (total.nanos + nanos) = some sum := by
    rw [ofParts?, whole, ofNanos?_toNanos]
  rw [plus, fitting_bind small, parts]
  rfl

theorem not_isEmpty_of_ofWord? {unit : Unit} (known : Unit.ofWord? word = some unit) :
    word.toList.isEmpty = false := by
  cases letters : word.toList with
  | nil =>
    rw [String.toList_eq_nil_iff.mp letters] at known
    cases known
  | cons c rest => rfl

/-- A number of a unit is added, if the sum is a duration. -/
theorem Counts.addUnits (counts : Counts (n, word) nanos) (adds : sum.toNanos = total.toNanos + nanos) :
    addUnits total n none word.toList = .ok sum := by
  have bound := toNanos_lt sum
  have below := total.nanos_lt
  simp only [nanosPerSecond] at bound
  cases counts with
  | @seconds _ _ unit known long =>
    have few : n * unit.seconds < 18446744073709551616 := by
      simp only [nanosPerSecond] at adds
      omega
    have added : plus total (n * unit.seconds) 0 = .ok sum :=
      plus_eq (by omega) (by rw [adds]; omega)
    rw [Duration.addUnits, not_isEmpty_of_ofWord? known, String.ofList_toList, known]
    simp only [long, fitting_bind few, added]
    rfl
  | @nanos _ scale _ unit known short small =>
    have few : n * scale < 18446744073709551616 := by
      simp only [nanosPerSecond] at small
      omega
    have added : plus total 0 (n * scale) = .ok sum :=
      plus_eq (by simp only [nanosPerSecond] at small; omega) (by rw [adds]; omega)
    rw [Duration.addUnits, not_isEmpty_of_ofWord? known, String.ofList_toList, known]
    simp only [short, fitting_bind few, added]
    rfl

/-! Reading. -/

/-- From where the reader stands, characters lead to a total and a phase. -/
def Leads (p : Progress) (cs : List Char) (total : Duration) (phase : Phase) : Prop :=
  ∃ offset, cs.foldlM step p = .ok ⟨offset, total, phase⟩

theorem Leads.append {p : Progress} {cs more : List Char} {total total' : Duration} {phase phase' : Phase}
    (leads : Leads p cs total phase) (goes : ∀ offset, Leads ⟨offset, total, phase⟩ more total' phase') :
    Leads p (cs ++ more) total' phase' := by
  obtain ⟨between, first⟩ := leads
  obtain ⟨offset, second⟩ := goes between
  refine ⟨offset, ?_⟩
  rw [List.foldlM_append, first]
  exact second

theorem leads_digits (total : Duration) {digits : List Char} (numeric : ∀ c ∈ digits, c.isDigit = true)
    {value : Nat} (fits : Nat.ofDigitChars 10 digits value < 18446744073709551616) (offset : Nat) :
    Leads ⟨offset, total, .whole value⟩ digits total (.whole (Nat.ofDigitChars 10 digits value)) := by
  induction digits generalizing value offset with
  | nil => exact ⟨offset, rfl⟩
  | cons c rest ih =>
    obtain ⟨digit, numeric⟩ := List.forall_mem_cons.mp numeric
    rw [Nat.ofDigitChars_cons] at fits ⊢
    have next : 10 * value + (c.toNat - '0'.toNat) = value * 10 + digitValue c := by
      rw [Nat.mul_comm]
      rfl
    have small := Integer.le_ofDigitChars rest (10 * value + (c.toNat - '0'.toNat))
    rw [next] at fits small ⊢
    obtain ⟨after, read⟩ := ih numeric fits (offset + c.utf8Size)
    refine ⟨after, ?_⟩
    have taken : step ⟨offset, total, .whole value⟩ c =
        .ok ⟨offset + c.utf8Size, total, .whole (value * 10 + digitValue c)⟩ := by
      simp only [step, digit, if_true]
      exact fitting_bind (by omega) _
    rw [List.foldlM_cons, taken]
    exact read

theorem leads_number (fits : n < 18446744073709551616) {p : Progress} {opened : Bool} {mark : Nat}
    (start : p.phase = .seek opened mark) : Leads p (Nat.toDigits 10 n) p.total (.whole n) := by
  have whole : Nat.ofDigitChars 10 (Nat.toDigits 10 n) 0 = n := Nat.ofDigitChars_ten_toDigits
  have numeric : ∀ c ∈ Nat.toDigits 10 n, c.isDigit = true := fun _ => Integer.isDigit_of_mem_toDigits
  cases digits : Nat.toDigits 10 n with
  | nil => exact absurd digits Nat.toDigits_ne_nil
  | cons c rest =>
    rw [digits, Nat.ofDigitChars_cons, Nat.mul_zero, Nat.zero_add] at whole
    rw [digits] at numeric
    obtain ⟨digit, numeric⟩ := List.forall_mem_cons.mp numeric
    obtain ⟨offset, read⟩ := leads_digits p.total numeric (by rwa [whole]) (p.offset + c.utf8Size)
    rw [whole] at read
    refine ⟨offset, ?_⟩
    have taken : step p c = .ok ⟨p.offset + c.utf8Size, p.total, .whole (digitValue c)⟩ := by
      simp only [step, start, digit, if_true]
    rw [List.foldlM_cons, taken]
    exact read

def Spells (c : Char) : Prop := isUnitLetter c = true ∧ c.isDigit = false ∧ Text.isBlank c = false

theorem spells_of_ofWord? {unit : Unit} (known : Unit.ofWord? word = some unit) : ∀ c ∈ word.toList, Spells c := by
  have listed : ∀ entry ∈ Unit.spellings, ∀ word ∈ entry.2, word.toList.all (fun c =>
      isUnitLetter c && !c.isDigit && !Text.isBlank c) = true := by decide +kernel
  obtain ⟨entry, found, _⟩ := Option.map_eq_some_iff.mp known
  have among : word ∈ entry.2 := by simpa using List.find?_some found
  intro c member
  have letter := List.all_eq_true.mp (listed entry (List.mem_of_find?_eq_some found) word among) c member
  simpa [Spells, and_assoc] using letter

theorem leads_letters (total : Duration) (n : Nat) {letters : List Char} (spells : ∀ c ∈ letters, Spells c)
    (word : List Char) (offset : Nat) :
    Leads ⟨offset, total, .unit n none word⟩ letters total (.unit n none (word ++ letters)) := by
  induction letters generalizing word offset with
  | nil => exact ⟨offset, by rw [List.append_nil]; rfl⟩
  | cons c rest ih =>
    obtain ⟨⟨letter, digit, blank⟩, spells⟩ := List.forall_mem_cons.mp spells
    obtain ⟨after, read⟩ := ih spells (word ++ [c]) (offset + c.utf8Size)
    refine ⟨after, ?_⟩
    have taken : step ⟨offset, total, .unit n none word⟩ c =
        .ok ⟨offset + c.utf8Size, total, .unit n none (word ++ [c])⟩ := by
      simp [step, letter, digit, blank]
    rw [List.append_assoc, List.singleton_append] at read
    rw [List.foldlM_cons, taken]
    exact read

theorem leads_word {letters : List Char} (spells : ∀ c ∈ letters, Spells c) (full : letters.isEmpty = false)
    (offset : Nat) : Leads ⟨offset, total, .whole n⟩ letters total (.unit n none letters) := by
  cases letters with
  | nil => cases full
  | cons c rest =>
    obtain ⟨⟨letter, digit, blank⟩, spells⟩ := List.forall_mem_cons.mp spells
    obtain ⟨after, read⟩ := leads_letters total n spells [c] (offset + c.utf8Size)
    refine ⟨after, ?_⟩
    have taken : step ⟨offset, total, .whole n⟩ c = .ok ⟨offset + c.utf8Size, total, .unit n none [c]⟩ := by
      simp [step, letter, digit, blank]
    rw [List.foldlM_cons, taken]
    exact read

def written (entry : Nat × String) : String := toString entry.1 ++ entry.2

/-- Where a number may begin, a number with its unit is read up to the end of the unit. -/
theorem Counts.leads (counts : Counts (n, word) nanos) (fits : n < 18446744073709551616) {p : Progress}
    {opened : Bool} {mark : Nat} (start : p.phase = .seek opened mark) :
    Leads p (written (n, word)).toList p.total (.unit n none word.toList) := by
  obtain ⟨unit, known⟩ := counts.known
  rw [written, String.toList_append, Integer.toList_toString]
  exact (leads_number fits start).append fun offset =>
    leads_word (spells_of_ofWord? known) (not_isEmpty_of_ofWord? known) offset

theorem step_blank {word : List Char} (added : addUnits total n none word = .ok sum) (offset : Nat) :
    step ⟨offset, total, .unit n none word⟩ ' ' =
      .ok ⟨offset + ' '.utf8Size, sum, .seek true (offset + ' '.utf8Size)⟩ := by
  have digit : ' '.isDigit = false := by decide
  have blank : Text.isBlank ' ' = true := by decide
  simp only [step, digit, blank, Bool.false_eq_true, if_false, if_true, added]
  rfl

/-- Where a number may begin, numbers with their units are added up. -/
theorem CountsAll.read (counts : CountsAll entries nanos) (full : entries ≠ []) {p : Progress} {opened : Bool}
    {mark : Nat} (start : p.phase = .seek opened mark) (adds : sum.toNanos = p.total.toNanos + nanos) :
    ((" ".intercalate (entries.map written)).toList.foldlM step p >>= finish) = .ok sum := by
  induction counts generalizing p opened mark with
  | nil => exact absurd rfl full
  | @cons entry rest here later first others ih =>
    obtain ⟨n, word⟩ := entry
    obtain ⟨offset, read⟩ := first.leads (first.fits (d := sum) (by omega)) start
    cases others with
    | nil =>
      rw [List.map_singleton, String.intercalate_singleton, read]
      exact first.addUnits adds
    | cons second others =>
      -- The sum so far is below the whole, so it is a duration as well.
      obtain ⟨between, reached⟩ := sum.exists_of_le (n := p.total.toNanos + here) (by omega)
      have more := ih (List.cons_ne_nil _ _)
        (p := ⟨offset + ' '.utf8Size, between, .seek true (offset + ' '.utf8Size)⟩) rfl
        (by rw [reached]; omega)
      have blank : " ".toList = [' '] := rfl
      rw [List.map_cons, List.map_cons, String.intercalate_cons_cons, String.toList_append,
        String.toList_append, List.append_assoc, List.foldlM_append, read, blank, List.singleton_append]
      show ((' ' :: _).foldlM step _ >>= finish) = .ok sum
      rw [List.foldlM_cons, step_blank (first.addUnits reached)]
      exact more

/-! Writing. -/

/-- Units that do not occur count nothing. -/
theorem CountsAll.occurring (counts : CountsAll entries nanos) : CountsAll (entries.filter (·.1 ≠ 0)) nanos := by
  induction counts with
  | nil => exact .nil
  | @cons entry rest here later first others ih =>
    by_cases occurs : entry.1 = 0
    · have none : here = 0 := by
        cases first with
        | seconds _ _ => simp_all
        | nanos _ _ _ => simp_all
      rw [List.filter_cons_of_neg (by simpa using occurs), none, Nat.zero_add]
      exact ih
    · rw [List.filter_cons_of_pos (by simpa using occurs)]
      exact .cons first ih

/-- The counts of all units make up the duration. -/
theorem countsAll_counts (d : Duration) : CountsAll d.counts d.toNanos := by
  have plural (n : Nat) {name : String} {unit : Unit} (one : Unit.ofWord? name = some unit)
      (several : Unit.ofWord? (name ++ "s") = some unit) :
      Unit.ofWord? (if 1 < n then name ++ "s" else name) = some unit := by
    split
    · exact several
    · exact one
  have milli : Unit.ofWord? "ms" = some .millisecond := rfl
  have micro : Unit.ofWord? "us" = some .microsecond := rfl
  have nano : Unit.ofWord? "ns" = some .nanosecond := rfl
  have small := d.nanos_lt
  have whole : d.toNanos = d.seconds / 31557600 * Unit.year.seconds * nanosPerSecond +
      (d.seconds % 31557600 / 2630016 * Unit.month.seconds * nanosPerSecond +
      (d.seconds % 31557600 % 2630016 / 86400 * Unit.day.seconds * nanosPerSecond +
      (d.seconds % 31557600 % 2630016 % 86400 / 3600 * Unit.hour.seconds * nanosPerSecond +
      (d.seconds % 31557600 % 2630016 % 86400 % 3600 / 60 * Unit.minute.seconds * nanosPerSecond +
      (d.seconds % 31557600 % 2630016 % 86400 % 60 * Unit.second.seconds * nanosPerSecond +
      (d.nanos / 1000000 * 1000000 + (d.nanos / 1000 % 1000 * 1000 + (d.nanos % 1000 * 1 + 0)))))))) := by
    simp only [toNanos, nanosPerSecond, Unit.seconds]
    omega
  rw [whole]
  apply CountsAll.cons (.seconds (plural _ rfl rfl) rfl)
  apply CountsAll.cons (.seconds (plural _ rfl rfl) rfl)
  apply CountsAll.cons (.seconds (plural _ rfl rfl) rfl)
  apply CountsAll.cons (.seconds rfl rfl)
  apply CountsAll.cons (.seconds rfl rfl)
  apply CountsAll.cons (.seconds rfl rfl)
  apply CountsAll.cons (.nanos milli rfl (by simp only [nanosPerSecond]; omega))
  apply CountsAll.cons (.nanos micro rfl (by simp only [nanosPerSecond]; omega))
  apply CountsAll.cons (.nanos nano rfl (by simp only [nanosPerSecond]; omega))
  exact .nil

/-- What is written for a duration are numbers of units that make it up. -/
theorem exists_written (d : Duration) : ∃ entries, entries ≠ [] ∧ CountsAll entries d.toNanos ∧
    d.toText = " ".intercalate (entries.map written) := by
  have occurring := d.countsAll_counts.occurring
  cases entries : d.counts.filter (·.1 ≠ 0) with
  | nil =>
    rw [entries] at occurring
    generalize d.toNanos = nanos at occurring
    cases occurring
    have second : Unit.ofWord? "s" = some .second := rfl
    refine ⟨[(0, "s")], List.cons_ne_nil _ _, .cons (.seconds second rfl) .nil, ?_⟩
    rw [toText, entries]
    rfl
  | cons first rest =>
    refine ⟨first :: rest, List.cons_ne_nil _ _, entries ▸ occurring, ?_⟩
    rw [toText, entries]
    rfl

/-- A duration is read from its text. -/
theorem ofText_toText (d : Duration) : ofText d.toText = .ok d := by
  obtain ⟨entries, full, counts, text⟩ := d.exists_written
  have whole : d.toNanos = Duration.zero.toNanos + d.toNanos := by
    have zero : Duration.zero.toNanos = 0 := by decide
    rw [zero, Nat.zero_add]
  have read := counts.read full (p := ⟨0, .zero, .seek false 0⟩) rfl whole
  rw [ofText, text, read]
  split
  · next lone =>
    -- A number without a unit is not read on, so this was not what was written.
    rw [lone] at read
    cases read
  · rfl

end Duration

namespace Builtin
open Expansion
variable {σ : Type} {text name : String}

/-- Behind a text without colons, arrows and line ends stands nothing but the name of a coercion. -/
theorem outcome_resolve_coercion (context : Context σ) {maxDepth : Nat} (outside : σ) (full : text ≠ "")
    (colon : ':' ∉ text.toList) (arrow : '>' ∉ text.toList) (line : '\n' ∉ text.toList)
    (known : name ∈ coercionNames) (deep : 0 < maxDepth) :
    ((Tree.text (text ++ "::" ++ name)).resolve registry context maxDepth outside).outcome =
      (applied (.text text) name).mapError (Fault.inDirective (text ++ "::" ++ name)) := by
  have begins := (isPlain_iff.mp (isPlain_of_unmarked (σ := σ) colon arrow)).begins
  have ends : ∀ name ∈ coercionNames, ∀ rest, rest ≠ "" → text ≠ rest ++ "::" ++ name := by
    intro name _ rest _ same
    exact colon (by simp [same])
  have run : ((Tree.text (Split.text ⟨text, [name]⟩)).resolve registry context maxDepth outside).outcome = _ :=
    outcome_resolve_text ⟨full, line⟩ begins ends (List.cons_ne_nil _ _) (List.forall_mem_singleton.mpr known) deep
  rw [List.foldlM_cons] at run
  simpa only [Split.text, List.foldl_cons, List.foldl_nil, List.foldlM_nil, bind_pure] using run

/-- The decimal notation of an integer is coerced as it stands behind the name. -/
theorem outcome_resolve_decimal (context : Context σ) {maxDepth : Nat} (outside : σ) (i : Int)
    (known : name ∈ coercionNames) (deep : 0 < maxDepth) :
    ((Tree.text (toString i ++ "::" ++ name)).resolve registry context maxDepth outside).outcome =
      (applied (.text (toString i)) name).mapError (Fault.inDirective (toString i ++ "::" ++ name)) := by
  have other {c : Char} (mark : c.isDigit = false ∧ c ≠ '-') : c ∉ (toString i).toList := by
    intro member
    simpa [mark] using Integer.plain_toString i c member
  exact outcome_resolve_coercion context outside (Integer.toString_ne_empty i) (other (by decide))
    (other (by decide)) (other (by decide)) known deep

/-- Coercions undo the writing of values. The text of a duration, which is also the one it is spelled out as, is
coerced to that duration, be it by itself or, in the tree, behind it by name, up to the longest duration there
is; and so is the text of an integer to that integer. -/
theorem coerced_display (context : Context σ) {maxDepth : Nat} (outside : σ) (deep : 0 < maxDepth) :
    (∀ d : Duration,
      let text := (Tree.duration d).display
      (Tree.duration d).spellOut = .text text ∧ toDuration (.text text) = .ok (.duration d) ∧
        ((Tree.text (text ++ "::duration")).resolve registry context maxDepth outside).outcome =
          .ok (.duration d)) ∧
    ∀ n : Int64,
      let text := (Tree.integer n).display
      toInteger (.text text) = .ok (.integer n) ∧
        ((Tree.text (text ++ "::atoi")).resolve registry context maxDepth outside).outcome =
          .ok (.integer n) := by
  constructor
  · intro d text
    have read : Duration.ofText text = .ok d := d.ofText_toText
    have coerced : toDuration (.text text) = .ok (.duration d) := by
      rw [toDuration, read]
    refine ⟨rfl, coerced, ?_⟩
    have full : text ≠ "" := by
      intro empty
      rw [empty] at read
      cases read
    have line : '\n' ∉ text.toList := by
      intro member
      have plain := d.plain_toText _ member
      revert plain
      decide
    have named : text ++ "::duration" = text ++ "::" ++ durationName := by
      rw [String.append_assoc]
      rfl
    rw [named, outcome_resolve_coercion context outside full (Duration.not_mem_of_ofText read (.inl rfl))
      (Duration.not_mem_of_ofText read (.inr rfl)) line (by decide) deep, applied_duration, coerced]
    rfl
  · intro n text
    have read : Integer.int64OfText text = .ok n := Integer.int64OfText_toInt n
    have coerced : toInteger (.text text) = .ok (.integer n) := by
      rw [toInteger, read]
    refine ⟨coerced, ?_⟩
    have named : text ++ "::atoi" = toString n.toInt ++ "::" ++ integerName := by
      rw [String.append_assoc]
      rfl
    rw [named, outcome_resolve_decimal context outside n.toInt (by decide) deep, applied_integer]
    exact congrArg (Except.mapError _) (congrArg (Except.mapError _) coerced)

/-- The longest duration is written with each of its units but the week, and read again. -/
theorem coerced_display_longest :
    let d : Duration := ⟨18446744073709551615, 999999999, by decide, by decide⟩
    let context : Context World := .ofWorlds none
    (Tree.duration d).display = "584542046090years 7months 15days 17h 5m 3s 999ms 999us 999ns" ∧
      ((Tree.text "584542046090years 7months 15days 17h 5m 3s 999ms 999us 999ns::duration").resolve registry
        context defaultMaxDepth {}).outcome = .ok (.duration d) ∧
      ((Tree.text "-9223372036854775808::atoi").resolve registry context defaultMaxDepth {}).outcome =
        .ok (.integer Int64.minValue) := by
  intro d context
  have text : (Tree.duration d).display = "584542046090years 7months 15days 17h 5m 3s 999ms 999us 999ns" := by
    decide +kernel
  have deep : 0 < defaultMaxDepth := by decide
  obtain ⟨durations, integers⟩ := coerced_display context {} deep
  obtain ⟨_, _, resolved⟩ := durations d
  obtain ⟨_, least⟩ := integers Int64.minValue
  rw [text] at resolved
  exact ⟨text, resolved, least⟩

end Builtin
end Directives
