import Directives.Proofs.Origins
import Directives.Proofs.Paths

/-! Brackets in paths. A path in which a bracket closes none, or more than one is left open, is refused. Where one
bracket at its end is all that is missing, a path is read as if it stood there. -/
namespace Directives.Location

/-- How many brackets a text leaves open, where so many are open before it; none if one closes that was not
opened. -/
def unclosed (opened : Nat) : List Char → Option Nat
  | [] => some opened
  | c :: rest =>
    if c = '[' then unclosed (opened + 1) rest
    else if c = ']' then if opened = 0 then none else unclosed (opened - 1) rest
    else unclosed opened rest

/-- Each bracket that opens is closed by a later one, and each that closes was opened. -/
def Balanced (text : String) : Prop := unclosed 0 text.toList = some 0

instance (text : String) : Decidable (Balanced text) := inferInstanceAs (Decidable (_ = _))

variable {opened : Nat} {key sofar text rest : List Char} {index : Option (List Char)} {steps : Location}

theorem unclosed_append (opened : Nat) (text rest : List Char) :
    unclosed opened (text ++ rest) = (unclosed opened text).bind (unclosed · rest) := by
  induction text generalizing opened with
  | nil => rfl
  | cons c text ih =>
    rw [List.cons_append, unclosed, unclosed]
    split
    · exact ih _
    · split
      · split
        · rfl
        · exact ih _
      · exact ih _

/-- One more bracket balances a text that leaves one open. -/
theorem balanced_append_iff {text : String} : Balanced (text ++ "]") ↔ unclosed 0 text.toList = some 1 := by
  have bracket : "]".toList = [']'] := rfl
  rw [Balanced, String.toList_append, bracket, unclosed_append]
  cases unclosed 0 text.toList with
  | none => simp
  | some opened => cases opened <;> simp [unclosed]

/-- How many brackets are open where the reader is: the one before an index, and those that have come up
since and can be no part of one. -/
def pending : Option (List Char) → Nat
  | none => 0
  | some sofar => sofar.count '[' + 1

theorem unclosed_inside {c : Char} (inside : c ≠ ']') (sofar rest : List Char) :
    unclosed (pending (some sofar)) (c :: rest) = unclosed (pending (some (sofar ++ [c]))) rest := by
  by_cases opens : c = '['
  · simp [unclosed, opens, pending]
  · simp [unclosed, opens, inside, pending]

/-- An index is written with digits and a sign, not with brackets. -/
theorem pending_of_indexStep {step : Step} (done : indexStep sofar = .ok step) : pending (some sofar) = 1 := by
  have written : ∀ c ∈ sofar, c.isDigit = true ∨ c = '+' ∨ c = '-' := by
    cases read : Integer.ofChars 0 Integer.maxWord64 sofar with
    | error malformed => simp [indexStep, Integer.word64OfText, read, Except.map] at done
    | ok position => exact Integer.chars_of_ofChars read
  have closed : '[' ∉ sofar := fun member => absurd (written _ member) (by decide)
  rw [pending, List.count_eq_zero.mpr closed]

theorem exists_of_map {longer : Location → Location} {below : Except Malformed Location}
    (done : below.map longer = .ok steps) : ∃ steps, below = .ok steps := by
  cases below with
  | error malformed => cases done
  | ok steps => exact ⟨steps, rfl⟩

/-- A text that is read leaves no bracket open, or one. -/
theorem unclosed_of_read (done : read key index text = .ok steps) :
    ∃ left ≤ 1, unclosed (pending index) text = some left := by
  fun_induction read key index text generalizing steps with
  | case1 key => exact ⟨0, Nat.zero_le 1, rfl⟩
  | case2 key sofar =>
    cases named : indexStep sofar with
    | error malformed => simp [named, Except.map] at done
    | ok step => exact ⟨1, Nat.le_refl 1, congrArg some (pending_of_indexStep named)⟩
  | case3 key rest sofar ih =>
    cases named : indexStep sofar with
    | error malformed => simp [named, bind, Except.bind] at done
    | ok step =>
      rw [named] at done
      obtain ⟨below, done⟩ := exists_of_map done
      rw [pending_of_indexStep named]
      exact ih done
  | case4 key c rest sofar inside ih =>
    rw [unclosed_inside inside]
    exact ih done
  | case5 key rest ih =>
    obtain ⟨below, done⟩ := exists_of_map done
    exact ih done
  | case6 key rest _ ih =>
    obtain ⟨below, done⟩ := exists_of_map done
    exact ih done
  | case7 => cases done
  | case8 key c rest point opens closes ih =>
    rw [unclosed, if_neg opens, if_neg closes]
    exact ih done

/-- The end of a text closes the bracket that is open there. -/
theorem read_closed (missing : unclosed (pending index) text = some 1) :
    read key index (text ++ [']']) = read key index text := by
  fun_induction read key index text with
  | case1 key => cases missing
  | case2 key sofar =>
    rw [List.nil_append, read, if_pos rfl]
    cases indexStep sofar <;> rfl
  | case3 key rest sofar ih =>
    rw [List.cons_append, read, if_pos rfl]
    cases named : indexStep sofar with
    | error malformed => rfl
    | ok step =>
      rw [pending_of_indexStep named] at missing
      rw [ih missing]
  | case4 key c rest sofar inside ih =>
    rw [unclosed_inside inside] at missing
    rw [List.cons_append, read, if_neg inside]
    exact ih missing
  | case5 key rest ih => rw [List.cons_append, read_point, ih missing]
  | case6 key rest _ ih => rw [List.cons_append, read_bracket, ih missing]
  | case7 => cases missing
  | case8 key c rest point opens closes ih =>
    rw [unclosed, if_neg opens, if_neg closes] at missing
    rw [List.cons_append, read, if_neg point, if_neg opens, if_neg closes]
    exact ih missing

theorem ofText_closed {text : String} (missing : Balanced (text ++ "]")) :
    ofText (text ++ "]") = ofText text := by
  rw [ofText, String.toList_append]
  exact read_closed (balanced_append_iff.mp missing)

theorem ofText_of_unbalanced {text : String} (unbalanced : ¬ Balanced text)
    (beyond : ¬ Balanced (text ++ "]")) : ∃ malformed, ofText text = .error malformed := by
  cases done : ofText text with
  | error malformed => exact ⟨malformed, rfl⟩
  | ok place =>
    obtain ⟨left, few, counted⟩ := unclosed_of_read done
    match left, few with
    | 0, _ => exact absurd counted unbalanced
    | 1, _ => exact absurd (balanced_append_iff.mpr counted) beyond

end Location

namespace Tree
variable {t v : Tree} {path : String}

theorem find_of_ofText (full : path ≠ "") : t.find path = match Location.ofText path with
    | .error malformed => .error (.parse malformed.message)
    | .ok place => (t.at? place).elim (.error (pathNotFound path)) .ok := by
  rw [find, if_neg (by simpa using full)]
  cases Location.ofText path with
  | error malformed => rfl
  | ok place => cases found : t.at? place <;> simp [found]

/-- Whatever is wrong with a path, it is told as a failure to read it. -/
theorem kind_of_find {f : Fault} (failed : t.find path = .error f) : f.kind = .parse := by
  by_cases root : path = ""
  · subst root
    cases failed
  · rw [find_of_ofText root] at failed
    split at failed
    · cases failed
      rfl
    · next place _ =>
      cases found : t.at? place with
      | none =>
        rw [found] at failed
        cases failed
        rfl
      | some v =>
        rw [found] at failed
        cases failed

/-- Texts that name the same place lead to the same value. -/
theorem find_congr {other : String} (same : Location.ofText path = Location.ofText other) (full : path ≠ "")
    (full' : other ≠ "") : t.find path = .ok v ↔ t.find other = .ok v := by
  rw [find_of_ofText full, find_of_ofText full', same]
  cases Location.ofText other with
  | error malformed => simp
  | ok place => cases found : t.at? place <;> simp [found]

end Tree

namespace Location

/-- A path whose brackets are not balanced is refused, whatever it is to be found in, unless one bracket at
its end would balance it. Then it is read as the path with this bracket, and leads to the same values. -/
theorem unbalanced_refused {text : String} (unbalanced : ¬ Balanced text) :
    (¬ Balanced (text ++ "]") → ∃ malformed, ofText text = .error malformed ∧
      ∀ t : Tree, t.find text = .error (.parse malformed.message)) ∧
    (Balanced (text ++ "]") → ofText text = ofText (text ++ "]") ∧
      ∀ t : Tree, (∀ v, t.find text = .ok v ↔ t.find (text ++ "]") = .ok v) ∧
        ∀ f, t.find text = .error f → f.kind = .parse) := by
  have full : text ≠ "" := by
    rintro rfl
    exact unbalanced rfl
  refine ⟨fun beyond => ?_, fun missing => ?_⟩
  · obtain ⟨malformed, refused⟩ := ofText_of_unbalanced unbalanced beyond
    exact ⟨malformed, refused, fun t => by rw [Tree.find_of_ofText full, refused]⟩
  · have same := (ofText_closed missing).symm
    have full' : text ++ "]" ≠ "" := by simp
    exact ⟨same, fun t => ⟨fun v => Tree.find_congr same full full', fun f => Tree.kind_of_find⟩⟩

theorem unbalanced_refused_stray :
    ¬ Balanced "hosts]a[0]" ∧ ¬ Balanced ("hosts]a[0]" ++ "]") ∧
      ∀ t : Tree, ∃ cause, t.find "hosts]a[0]" = .error (.parse cause) := by
  have unbalanced : ¬ Balanced "hosts]a[0]" := by decide
  have beyond : ¬ Balanced ("hosts]a[0]" ++ "]") := by decide
  obtain ⟨malformed, _, refused⟩ := (unbalanced_refused unbalanced).1 beyond
  exact ⟨unbalanced, beyond, fun t => ⟨malformed.message, refused t⟩⟩

/-- A bracket that is left open at the end of a path is passed over. -/
theorem unclosed_found :
    let t : Tree := .mapping [("servers", .sequence [.text "a"])]
    ¬ Balanced "servers[0" ∧ ofText "servers[0" = .ok [.key "servers", .index 0] ∧
      t.find "servers[0" = .ok (.text "a") := by
  decide +kernel

end Location
end Directives
