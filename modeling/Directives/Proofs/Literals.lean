import Directives.Load
import Directives.Proofs.JsonTokens
import Directives.Proofs.Spelling

/-! Integers in files. An integer stands in a JSON text either as a number or, to be coerced, as a text with the
name of the coercion behind it. Within sixty-four bits both give the integer. Beyond them the coercion fails,
and the number is read as a float, as far as floats reach. -/
namespace Directives

/-! Floats of integers. -/

namespace Binary64

/-- The bits below the sign tell whether a value is finite. -/
theorem isFinite_eq (x : Binary64) : x.isFinite = decide (x.bits.toNat / 4503599627370496 % 2048 ≠ 2047) := by
  have power : Nat.pow 2 52 = 4503599627370496 := rfl
  simp only [isFinite, read, power]
  split
  · next found =>
    split at found
    · split at found <;> cases found
    · next other => exact (decide_eq_true other).symm
  · next other =>
    split at other
    · next most => simp [most]
    · split at other <;> exact (other _ _ _ rfl).elim

/-- A sign does not make a value infinite. -/
theorem isFinite_neg (x : Binary64) : x.neg.isFinite = x.isFinite := by
  have sign : Nat.pow 2 63 % 2 ^ 64 = 2 ^ 63 := rfl
  have kept : (x.bits.toNat ^^^ 2 ^ 63) % 2 ^ 63 = x.bits.toNat % 2 ^ 63 := by
    rw [Nat.xor_mod_two_pow, Nat.mod_self, Nat.xor_zero]
  rw [isFinite_eq, isFinite_eq, neg, BitVec.toNat_xor, BitVec.toNat_ofNat, sign]
  congr 2
  omega

theorem isFinite_of_isZero {x : Binary64} (zero : x.isZero = true) : x.isFinite = true := by
  unfold isZero at zero
  unfold isFinite
  split at zero
  · rfl
  · cases zero

theorem neg_ofMagnitude {magnitude : Nat} (small : magnitude < 9223372036854775808) :
    (ofMagnitude false magnitude).neg = ofMagnitude true magnitude := by
  have sign : Nat.pow 2 63 = 2 ^ 63 := rfl
  have above : (magnitude ^^^ 2 ^ 63) / 2 ^ 63 = 1 := by
    rw [Nat.xor_div_two_pow, Nat.div_self (by decide), Nat.div_eq_of_lt small]
    rfl
  have below : (magnitude ^^^ 2 ^ 63) % 2 ^ 63 = magnitude := by
    rw [Nat.xor_mod_two_pow, Nat.mod_self, Nat.xor_zero, Nat.mod_eq_of_lt small]
  simp only [neg, ofMagnitude, mk.injEq, sign, if_true, Bool.false_eq_true, if_false]
  apply BitVec.eq_of_toNat_eq
  rw [BitVec.toNat_xor, BitVec.toNat_ofNat, BitVec.toNat_ofNat, BitVec.toNat_ofNat,
    Nat.mod_eq_of_lt (by omega : magnitude < 2 ^ 64), Nat.mod_eq_of_lt (by decide : 2 ^ 63 < 2 ^ 64),
    Nat.mod_eq_of_lt (by omega : 2 ^ 63 + magnitude < 2 ^ 64)]
  omega

/-- Rounding does not look at the sign. -/
theorem neg_ofRatio (num den : Nat) : (ofRatio false num den).neg = ofRatio true num den := by
  have most : infinityMagnitude < 9223372036854775808 := by decide
  unfold ofRatio
  split
  · exact neg_ofMagnitude (by decide)
  · dsimp only
    split
    · exact neg_ofMagnitude most
    · exact neg_ofMagnitude (Nat.lt_of_le_of_lt (Nat.min_le_left _ _) most)

theorem neg_ofInt {i : Int} (below : i < 0) : (ofInt i.natAbs).neg = ofInt i := by
  have above : ¬ (i.natAbs : Int) < 0 := Int.not_lt.mpr (Int.natCast_nonneg _)
  rw [ofInt, ofInt, decide_eq_false above, decide_eq_true below, Int.natAbs_natCast, neg_ofRatio]

theorem isZero_infinity (negative : Bool) : (infinity negative).isZero = false := by
  cases negative <;> rfl

theorem isZero_ofMagnitude {magnitude : Nat} (low : 4503599627370496 ≤ magnitude)
    (high : magnitude ≤ infinityMagnitude) : (ofMagnitude false magnitude).isZero = false := by
  have power : Nat.pow 2 52 = 4503599627370496 := rfl
  have top : infinityMagnitude = 9218868437227405312 := by decide
  have bits : (ofMagnitude false magnitude).bits.toNat = magnitude := by
    simp only [ofMagnitude, Bool.false_eq_true, if_false, BitVec.toNat_ofNat]
    omega
  have normal : magnitude / 4503599627370496 % 2048 ≠ 0 := by omega
  simp only [isZero, read, power, bits]
  split
  · next found =>
    split at found
    · split at found <;> cases found
    · cases found
      simp
  · rfl

/-- The rounded value of an integer is zero only for zero. -/
theorem isZero_ofInt {n : Nat} (positive : 0 < n) : (ofInt n).isZero = false := by
  have nonzero : n ≠ 0 := by omega
  have above : ¬ (n : Int) < 0 := Int.not_lt.mpr (Int.natCast_nonneg _)
  have exponent : -53 ≤ exponentFor n 1 := by
    have one : Nat.log2 1 = 0 := by decide
    simp only [exponentFor, one]
    split <;> omega
  have least : minExponent = -1074 := rfl
  have power : Nat.pow 2 52 = 4503599627370496 := rfl
  rw [ofInt, decide_eq_false above, Int.natAbs_natCast, ofRatio, if_neg nonzero]
  dsimp only
  split
  · exact isZero_infinity false
  · refine isZero_ofMagnitude (Nat.le_min.mpr ⟨by decide, ?_⟩) (Nat.min_le_left _ _)
    rw [power]
    have : 1 ≤ (exponentFor n 1 - minExponent).toNat := by omega
    omega

end Binary64

/-! Numbers of JSON texts. -/

namespace Document.Json

theorem digitValue_le {c : Char} (digit : c.isDigit = true) : digitValue c ≤ 9 := by
  have nine : '9'.toNat = '0'.toNat + 9 := rfl
  have := Char.isDigit_iff_toNat.mp digit
  rw [digitValue]
  omega

theorem ofDigitChars_lt {digits : List Char} (numeric : ∀ c ∈ digits, c.isDigit = true) (n : Nat) :
    Nat.ofDigitChars 10 digits n < (n + 1) * 10 ^ digits.length := by
  induction digits generalizing n with
  | nil => simp
  | cons c rest ih =>
    obtain ⟨digit, numeric⟩ := List.forall_mem_cons.mp numeric
    have small : c.toNat - '0'.toNat ≤ 9 := digitValue_le digit
    calc Nat.ofDigitChars 10 (c :: rest) n
        = Nat.ofDigitChars 10 rest (10 * n + (c.toNat - '0'.toNat)) := Nat.ofDigitChars_cons
      _ < (10 * n + (c.toNat - '0'.toNat) + 1) * 10 ^ rest.length := ih numeric _
      _ ≤ (n + 1) * 10 * 10 ^ rest.length := Nat.mul_le_mul_right _ (by omega)
      _ = (n + 1) * 10 ^ (c :: rest).length := by rw [List.length_cons, Nat.pow_succ', Nat.mul_assoc]

/-- The significand takes digits as long as it fits; so what is left over only tells the size. -/
theorem fill_spec {digits : List Char} (numeric : ∀ c ∈ digits, c.isDigit = true) {n : Nat}
    (small : n < 18446744073709551616) :
    let filled := (fill n digits).1
    let excess := (fill n digits).2
    filled < 18446744073709551616 ∧ (excess = [] ∨ 0 < filled) ∧
      Nat.ofDigitChars 10 digits n < (filled + 1) * 10 ^ excess.length := by
  induction digits generalizing n with
  | nil => simpa [fill] using small
  | cons c rest ih =>
    obtain ⟨digit, others⟩ := List.forall_mem_cons.mp numeric
    have value : n * 10 + digitValue c = 10 * n + (c.toNat - '0'.toNat) := by
      rw [Nat.mul_comm]
      rfl
    simp only [fill]
    split
    · next fits =>
      rw [Nat.ofDigitChars_cons, ← value]
      exact ih others fits
    · next full =>
      refine ⟨small, .inr ?_, ofDigitChars_lt numeric n⟩
      have := digitValue_le digit
      omega

/-- A number is scaled to a finite one or not at all. -/
theorem isFinite_of_scale {significand count : Nat} {x : Binary64} (done : scale significand count = some x) :
    x.isFinite = true := by
  have up : (0 : Int) ≤ count := Int.natCast_nonneg _
  rw [scale, if_pos up] at done
  dsimp only at done
  split at done
  · split at done
    · next finite =>
      cases done
      exact finite
    · cases done
  · split at done
    · next zero =>
      cases done
      exact Binary64.isFinite_of_isZero zero
    · cases done

/-- Nothing but zero is scaled by more than the largest power of ten. -/
theorem scale_eq_none {significand count : Nat} (positive : 0 < significand) (far : maxPower < count) :
    scale significand count = none := by
  have up : (0 : Int) ≤ count := Int.natCast_nonneg _
  have beyond : ¬ (count : Int).toNat ≤ maxPower := by rw [Int.toNat_natCast]; omega
  rw [scale, if_pos up]
  simp only [if_neg beyond, Binary64.isZero_ofInt positive, Bool.false_eq_true, if_false]

theorem inexact_numeral (i : Int) :
    let filled := fill 0 (Nat.toDigits 10 i.natAbs)
    (numeral i).inexact = (scale filled.1 filled.2.length).map fun x => if i < 0 then x.neg else x := by
  simp only [numeral, Numeral.inexact, decide_eq_true_eq]

theorem isFinite_of_inexact {i : Int} {x : Binary64} (done : (numeral i).inexact = some x) :
    x.isFinite = true := by
  rw [inexact_numeral] at done
  obtain ⟨y, scaled, rfl⟩ := Option.map_eq_some_iff.mp done
  have finite := isFinite_of_scale scaled
  split
  · rw [Binary64.isFinite_neg, finite]
  · exact finite

/-- An integer with so many digits is no number that can be read. -/
theorem inexact_eq_none {i : Int} (far : 18446744073709551616 * 10 ^ maxPower ≤ i.natAbs) :
    (numeral i).inexact = none := by
  have numeric : ∀ c ∈ Nat.toDigits 10 i.natAbs, c.isDigit = true := fun _ => Integer.isDigit_of_mem_toDigits
  obtain ⟨fits, full, size⟩ := fill_spec numeric (n := 0) (by decide)
  rw [Nat.ofDigitChars_ten_toDigits] at size
  have longer : maxPower < (fill 0 (Nat.toDigits 10 i.natAbs)).2.length := by
    refine Nat.lt_of_not_le fun short => Nat.not_lt.mpr far (size.trans_le ?_)
    exact Nat.mul_le_mul fits (Nat.pow_le_pow_right (by decide) short)
  have positive : 0 < (fill 0 (Nat.toDigits 10 i.natAbs)).1 := by
    refine full.resolve_left fun none => ?_
    rw [none] at longer
    exact absurd longer (Nat.not_lt_zero _)
  rw [inexact_numeral]
  simp only [scale_eq_none positive longer, Option.map_none]

/-- An integer of more than sixty-four bits is read like a number with a fraction. -/
theorem toDocument_numeral_of_large {i : Int} (large : 18446744073709551616 ≤ i.natAbs) :
    (numeral i).toDocument = (numeral i).inexact.map .float := by
  have beyond : ¬ i.natAbs < 18446744073709551616 := Nat.not_lt.mpr large
  simp only [Numeral.toDocument, numeral, natOfDigits_toDigits, beyond, decide_false, Bool.and_false,
    Bool.false_eq_true, if_false]

/-- A negative integer of sixty-four bits and a sign is read as a float. -/
theorem toDocument_numeral_of_below {i : Int} (below : i < -9223372036854775808)
    (small : i.natAbs < 18446744073709551616) : (numeral i).toDocument = some (.float (.ofInt i)) := by
  have negative : i < 0 := by omega
  have beyond : ¬ i.natAbs ≤ 9223372036854775808 := by omega
  rw [← Binary64.neg_ofInt negative]
  simp [Numeral.toDocument, numeral, natOfDigits_toDigits, negative, small, beyond]

/-! Texts of one value. -/

/-- The text is a value with nothing but white space around it. -/
def Spaced (value text : String) : Prop :=
  ∃ before after : List Char, (∀ c ∈ before, isSpace c = true) ∧ (∀ c ∈ after, isSpace c = true) ∧
    text = String.ofList (before ++ value.toList ++ after)

theorem ends_of_space {after : List Char} (space : ∀ c ∈ after, isSpace c = true) : Ends after := by
  intro c first
  have blank := space c (List.mem_of_mem_head? first)
  simp only [isSpace, Bool.or_eq_true, beq_iff_eq] at blank
  rcases blank with ((rfl | rfl) | rfl) | rfl <;> decide

theorem tokens_spaced {value text : String} (spaced : Spaced value text) :
    ∃ after, Ends after ∧ tokensFrom .between after = some [] ∧
      tokens text = tokensFrom .between (value.toList ++ after) := by
  obtain ⟨before, after, leading, trailing, rfl⟩ := spaced
  have blank := reads_space trailing []
  rw [List.append_nil] at blank
  refine ⟨after, ends_of_space trailing, blank, ?_⟩
  rw [tokens, String.toList_ofList, List.append_assoc, reads_space leading]
  exact Option.map_id'

/-- The text of an integer is read as the number that it is, if it is one. -/
theorem read_integer {i : Int} {text : String} (spaced : Spaced (toString i) text) :
    Json.read text = (numeral i).toDocument := by
  obtain ⟨after, ends, blank, found⟩ := tokens_spaced spaced
  rw [Json.read, readWithin, found, tokensFrom_toString i ends, blank]
  cases (numeral i).toDocument <;> rfl

theorem escapeChar_of_printed {c : Char} (quote : c ≠ '"') (backslash : c ≠ '\\') (printed : 32 ≤ c.toNat) :
    escapeChar c = [c] := by
  unfold escapeChar
  split
  · exact absurd rfl quote
  · exact absurd rfl backslash
  all_goals first | (revert printed; decide) | exact if_neg (Nat.not_lt.mpr printed)

/-- The text of an integer with the name of a coercion behind it stands in quotes as it is. -/
theorem quote_integer (i : Int) : quote (toString i ++ "::atoi") = ("\"" ++ toString i ++ "::atoi\"").toList := by
  have plain : ∀ c ∈ (toString i ++ "::atoi").toList, escapeChar c = [c] := by
    have behind : "::atoi".toList.all (fun c => escapeChar c == [c]) = true := rfl
    rw [String.toList_append]
    refine List.forall_mem_append.mpr ⟨fun c member => ?_, fun c member => ?_⟩
    · rcases Integer.plain_toString i c member with digit | rfl
      · have least := (Char.isDigit_iff_toNat.mp digit).1
        refine escapeChar_of_printed ?_ ?_ (Nat.le_trans (by decide) least)
        · rintro rfl
          cases digit
        · rintro rfl
          cases digit
      · rfl
    · simpa using List.all_eq_true.mp behind c member
  have same : (toString i ++ "::atoi").toList.flatMap escapeChar = (toString i ++ "::atoi").toList := by
    rw [List.flatMap_congr plain, List.flatMap_singleton']
  rw [quote, same]
  simp [String.toList_append]

theorem read_text {s text : String} (spaced : Spaced (String.ofList (quote s)) text) :
    Json.read text = some (.text s) := by
  obtain ⟨after, _, blank, found⟩ := tokens_spaced spaced
  rw [Json.read, readWithin, found, String.toList_ofList, reads_quote, blank]
  rfl

end Document.Json

/-! Loading. -/

namespace Load
variable {σ : Type} {context : Context σ} {maxDepth : Nat} {s : σ}

/-- The configuration file is a JSON text of one value, with any white space around it. -/
def Holds (context : Context σ) (s : σ) (path value : String) : Prop :=
  let file := configPath (context.world s).environment path
  Source.Format.ofPath file = .json ∧
    ∃ text, (context.world s).files.read file = .ok text ∧ Document.Json.Spaced value text

/-- A world with nothing but one configuration file. -/
def alone (content : String) : World :=
  { files := { nodes := [(["a.json"], .file (Text.toUtf8 content))] } }

theorem holds_alone {value content : String} (spaced : Document.Json.Spaced value content) :
    Holds (.ofWorlds none) (alone content) "a.json" value := by
  have stands : (alone content).files.read "a.json" = .ok content :=
    Files.read_beside (by simp) (by decide +kernel) (by decide +kernel) (by decide) (by decide +kernel) rfl
  have chosen : configPath ((Context.ofWorlds none).world (alone content)).environment "a.json" = "a.json" := by
    show configPath {} "a.json" = "a.json"
    decide +kernel
  rw [Holds, chosen]
  exact ⟨by decide +kernel, content, stands, spaced⟩

/-- A JSON text is resolved as the tree of its document, if it is one. -/
theorem outcome_load {registry : Registry σ} {path text : String}
    (json : Source.Format.ofPath (configPath (context.world s).environment path) = .json)
    (stands : (context.world s).files.read (configPath (context.world s).environment path) = .ok text) :
    (load registry context maxDepth path s).outcome =
      match Document.Json.read text with
      | some d => (d.toTree.resolve registry context maxDepth s).outcome
      | none => .error (Builtin.fileFault (configPath (context.world s).environment path) .json) := by
  simp only [load, Traced.record_bind, Traced.read_bind, readTree, Source.read_of_text stands, json,
    Source.Format.decode, Source.Format.tree_mapError]
  cases Document.Json.read text <;> rfl

theorem resolve_of_isOpaque {registry : Registry σ} {t : Tree} (scalar : t.isOpaque = true) :
    (t.resolve registry context maxDepth s).outcome = .ok t := by
  cases t <;> first | rfl | cases scalar

theorem isOpaque_of_toDocument {numeral : Document.Json.Numeral} {d : Document}
    (done : numeral.toDocument = some d) : d.toTree.isOpaque = true := by
  have number (i : Int) : (Document.number i).isOpaque = true := by
    rw [Document.number]
    split <;> rfl
  simp only [Document.Json.Numeral.toDocument] at done
  split at done
  · split at done
    · cases done
      exact number _
    · split at done
      · cases done
        exact number _
      · cases done
        rfl
  · obtain ⟨x, _, rfl⟩ := Option.map_eq_some_iff.mp done
    rfl

/-- A number stays as it is read. -/
theorem outcome_load_integer {registry : Registry σ} {path : String} {n : Int}
    (holds : Holds context s path (toString n)) : (load registry context maxDepth path s).outcome =
      match (Document.Json.numeral n).toDocument with
      | some d => .ok d.toTree
      | none => .error (Builtin.fileFault (configPath (context.world s).environment path) .json) := by
  obtain ⟨json, text, stands, spaced⟩ := holds
  rw [outcome_load json stands, Document.Json.read_integer spaced]
  cases done : (Document.Json.numeral n).toDocument with
  | none => rfl
  | some d => exact resolve_of_isOpaque (isOpaque_of_toDocument done)

def outOfRange (n : Int) : Fault :=
  let malformed : Integer.Malformed := if n < 0 then .tooSmall else .tooLarge
  ((Fault.parse s!"parse int {Text.quoted (toString n)}: {malformed.message}").inCoercion "atoi").inDirective
    (toString n ++ "::atoi")

/-- A text with the name of the coercion behind an integer is coerced, as far as the integer fits. -/
theorem outcome_load_coerced (deep : 0 < maxDepth) {path : String} {n : Int}
    (holds : Holds context s path ("\"" ++ toString n ++ "::atoi\"")) :
    let coerced := (load Builtin.registry context maxDepth path s).outcome
    (Integer.minInt64 ≤ n ∧ n ≤ Integer.maxInt64 → coerced = .ok (.integer (.ofInt n))) ∧
      (n < Integer.minInt64 ∨ Integer.maxInt64 < n → coerced = .error (outOfRange n)) := by
  intro coerced
  obtain ⟨json, text, stands, spaced⟩ := holds
  have quoted : Document.Json.Spaced (String.ofList (Document.Json.quote (toString n ++ "::atoi"))) text := by
    rwa [Document.Json.quote_integer, String.ofList_toList]
  have named : toString n ++ "::atoi" = toString n ++ "::" ++ Builtin.integerName := by
    rw [String.append_assoc]
    rfl
  have run : coerced =
      (Builtin.applied (.text (toString n)) Builtin.integerName).mapError
        (Fault.inDirective (toString n ++ "::atoi")) := by
    have resolved := Builtin.outcome_resolve_decimal context s n
      (List.mem_cons_self : Builtin.integerName ∈ Builtin.coercionNames) deep
    rw [← named] at resolved
    show (load Builtin.registry context maxDepth path s).outcome = _
    rw [outcome_load json stands, Document.Json.read_text quoted]
    exact resolved
  rw [run, Builtin.applied_integer, Builtin.toInteger, Integer.int64OfText_toString]
  constructor
  · rintro ⟨above, below⟩
    rw [Integer.bounded_of_le above below]
    rfl
  · intro outside
    rw [Integer.bounded_of_outside (by decide) outside]
    rfl

/-- What a number in a file is loaded as, over all integers. -/
theorem outcome_load_literal (registry : Registry σ) (maxDepth : Nat) {path : String} {n : Int}
    (holds : Holds context s path (toString n)) :
    let loaded := (load registry context maxDepth path s).outcome
    let refused := Builtin.fileFault (configPath (context.world s).environment path) .json
    (Integer.minInt64 ≤ n ∧ n ≤ Integer.maxInt64 → loaded = .ok (.integer (.ofInt n))) ∧
      (n < Integer.minInt64 ∨ Integer.maxInt64 < n →
        (n.natAbs < 18446744073709551616 → loaded = .ok (.float (.ofInt n))) ∧
        (18446744073709551616 ≤ n.natAbs →
          loaded = .error refused ∨ ∃ x : Binary64, x.isFinite = true ∧ loaded = .ok (.float x)) ∧
        (18446744073709551616 * 10 ^ Document.Json.maxPower ≤ n.natAbs → loaded = .error refused)) := by
  intro loaded refused
  have least : Integer.minInt64 = -9223372036854775808 := rfl
  have most : Integer.maxInt64 = 9223372036854775807 := rfl
  have run : loaded = _ := outcome_load_integer holds
  refine ⟨fun ⟨above, below⟩ => ?_, fun outside => ⟨fun small => ?_, fun large => ?_, fun far => ?_⟩⟩
  · have fits : Document.Json.Fits n := ⟨by omega, by omega⟩
    rw [run, Document.Json.toDocument_numeral fits]
    simp only [Document.toTree]
    rw [Document.number, if_pos ⟨by omega, by omega⟩]
  · rcases outside with below | above
    · rw [run, Document.Json.toDocument_numeral_of_below (by omega) small]
      rfl
    · have fits : Document.Json.Fits n := ⟨by omega, by omega⟩
      rw [run, Document.Json.toDocument_numeral fits]
      simp only [Document.toTree]
      rw [Document.number, if_neg (by omega)]
  · rw [run, Document.Json.toDocument_numeral_of_large large]
    cases inexact : (Document.Json.numeral n).inexact with
    | none => exact .inl rfl
    | some x => exact .inr ⟨x, Document.Json.isFinite_of_inexact inexact, rfl⟩
  · have factor : 0 < 10 ^ Document.Json.maxPower := Nat.pow_pos (by decide)
    have large := Nat.le_trans (Nat.le_mul_of_pos_right 18446744073709551616 factor) far
    rw [run, Document.Json.toDocument_numeral_of_large large, Document.Json.inexact_eq_none far]
    rfl

/-- An integer in a file is loaded the same as a number and as a text that is coerced, as long as it has
sixty-four bits. Beyond them the coercion fails and the number becomes the nearest float, or some finite float if
it has more bits even without its sign; and only a number too large for a float is refused as well. -/
theorem load_literal_or_coerced {n : Int} {path path' : String} {s' : σ} (deep : 0 < maxDepth)
    (literal : Holds context s path (toString n))
    (quoted : Holds context s' path' ("\"" ++ toString n ++ "::atoi\"")) :
    let loaded := (load Builtin.registry context maxDepth path s).outcome
    let coerced := (load Builtin.registry context maxDepth path' s').outcome
    let refused := Builtin.fileFault (configPath (context.world s).environment path) .json
    (Integer.minInt64 ≤ n ∧ n ≤ Integer.maxInt64 →
      loaded = .ok (.integer (.ofInt n)) ∧ coerced = .ok (.integer (.ofInt n))) ∧
    (n < Integer.minInt64 ∨ Integer.maxInt64 < n →
      coerced = .error (outOfRange n) ∧
      (n.natAbs < 18446744073709551616 → loaded = .ok (.float (.ofInt n))) ∧
      (18446744073709551616 ≤ n.natAbs →
        loaded = .error refused ∨ ∃ x : Binary64, x.isFinite = true ∧ loaded = .ok (.float x)) ∧
      (18446744073709551616 * 10 ^ Document.Json.maxPower ≤ n.natAbs → loaded = .error refused)) := by
  obtain ⟨within, beyond⟩ := outcome_load_literal Builtin.registry maxDepth literal
  obtain ⟨coerces, fails⟩ := outcome_load_coerced deep quoted
  exact ⟨fun bounds => ⟨within bounds, coerces bounds⟩, fun outside => ⟨fails outside, beyond outside⟩⟩

/-- The least integer is loaded either way. -/
theorem load_literal_or_coerced_least :
    let n : Int := -9223372036854775808
    let number := alone " -9223372036854775808\n"
    let text := alone "\"-9223372036854775808::atoi\""
    let context := Context.ofWorlds none
    0 < defaultMaxDepth ∧ Holds context number "a.json" (toString n) ∧
      Holds context text "a.json" ("\"" ++ toString n ++ "::atoi\"") ∧
      (load Builtin.registry context defaultMaxDepth "a.json" number).outcome = .ok (.integer Int64.minValue) ∧
      (load Builtin.registry context defaultMaxDepth "a.json" text).outcome = .ok (.integer Int64.minValue) := by
  intro n number text context
  have deep : 0 < defaultMaxDepth := by decide
  have literal : Holds context number "a.json" (toString n) :=
    holds_alone ⟨[' '], ['\n'], List.forall_mem_singleton.mpr rfl, List.forall_mem_singleton.mpr rfl,
      by decide +kernel⟩
  have quoted : Holds context text "a.json" ("\"" ++ toString n ++ "::atoi\"") :=
    holds_alone ⟨[], [], List.forall_mem_nil _, List.forall_mem_nil _, by decide +kernel⟩
  obtain ⟨within, _⟩ := load_literal_or_coerced deep literal quoted
  obtain ⟨loaded, coerced⟩ := within (by decide)
  exact ⟨deep, literal, quoted, loaded, coerced⟩

/-- One more than the greatest integer: the number is loaded as a float, and its text is not coerced. -/
theorem load_literal_above :
    let n : Int := 9223372036854775808
    let number := alone "9223372036854775808"
    let text := alone "\"9223372036854775808::atoi\""
    let context := Context.ofWorlds none
    let loaded := (load Builtin.registry context defaultMaxDepth "a.json" number).outcome
    let coerced := (load Builtin.registry context defaultMaxDepth "a.json" text).outcome
    Holds context number "a.json" (toString n) ∧
      Holds context text "a.json" ("\"" ++ toString n ++ "::atoi\"") ∧
      loaded = .ok (.float ⟨0x43e0000000000000#64⟩) ∧ coerced = .error (outOfRange n) ∧
      ¬ ((∃ i, loaded = .ok (.integer i) ∧ coerced = .ok (.integer i)) ∨
        ∃ f f', loaded = .error f ∧ coerced = .error f') := by
  intro n number text context loaded coerced
  have literal : Holds context number "a.json" (toString n) :=
    holds_alone ⟨[], [], List.forall_mem_nil _, List.forall_mem_nil _, by decide +kernel⟩
  have quoted : Holds context text "a.json" ("\"" ++ toString n ++ "::atoi\"") :=
    holds_alone ⟨[], [], List.forall_mem_nil _, List.forall_mem_nil _, by decide +kernel⟩
  have float : Binary64.ofInt n = ⟨0x43e0000000000000#64⟩ := by decide +kernel
  have read : loaded = .ok (.float ⟨0x43e0000000000000#64⟩) :=
    float ▸ ((outcome_load_literal Builtin.registry defaultMaxDepth literal).2 (by decide)).1 (by decide)
  have failed : coerced = .error (outOfRange n) := (outcome_load_coerced (by decide) quoted).2 (by decide)
  refine ⟨literal, quoted, read, failed, ?_⟩
  rintro (⟨i, integer, _⟩ | ⟨f, f', error, _⟩)
  · cases read.symm.trans integer
  · cases read.symm.trans error

end Load
end Directives
