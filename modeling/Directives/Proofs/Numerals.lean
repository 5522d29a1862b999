import Mathlib.Data.Nat.Digits.Lemmas
import Directives.Integer.Literal

/-! Integers as texts. An integer in decimal notation is read as itself where it lies within the bounds, and
is refused as too small or too large where it does not. -/
namespace Directives.Integer
variable {low high value : Int} {text : List Char}

def signed (negative : Bool) (n : Nat) : Int := if negative then -(n : Int) else n

def bounded (low high i : Int) : Except Malformed Int :=
  if i < low then .error .tooSmall else if high < i then .error .tooLarge else .ok i

theorem bounded_of_le (above : low ≤ value) (below : value ≤ high) : bounded low high value = .ok value := by
  rw [bounded, if_neg (Int.not_lt.mpr above), if_neg (Int.not_lt.mpr below)]

theorem bounded_of_outside (natural : low ≤ 0 ∧ 0 ≤ high) (outside : value < low ∨ high < value) :
    bounded low high value = .error (if value < 0 then .tooSmall else .tooLarge) := by
  obtain ⟨low_le, le_high⟩ := natural
  rw [bounded]
  split
  · next under => rw [if_pos (by omega)]
  · next above => rw [if_pos (outside.resolve_left above), if_neg (by omega)]

theorem le_ofDigitChars (digits : List Char) (n : Nat) : n ≤ Nat.ofDigitChars 10 digits n := by
  induction digits generalizing n with
  | nil => exact Nat.le_refl n
  | cons c rest ih =>
    rw [Nat.ofDigitChars_cons]
    have := ih (10 * n + (c.toNat - '0'.toNat))
    omega

theorem signed_next (negative : Bool) (n d : Nat) :
    (if negative = true then signed negative n * 10 - (d : Int) else signed negative n * 10 + d) =
      signed negative (10 * n + d) := by
  cases negative with
  | false => simp [signed]; omega
  | true => simp [signed]; omega

/-- What leaves the bounds stays outside, since further digits only lead away from zero. -/
theorem bounded_of_longer (negative : Bool) {n m : Nat} (longer : n ≤ m) (natural : low ≤ 0 ∧ 0 ≤ high) :
    (signed negative n < low → bounded low high (signed negative m) = .error .tooSmall) ∧
      (high < signed negative n → bounded low high (signed negative m) = .error .tooLarge) := by
  obtain ⟨low_le, le_high⟩ := natural
  cases negative with
  | false =>
    simp only [signed, Bool.false_eq_true, if_false]
    refine ⟨fun under => absurd under (by omega), fun past => ?_⟩
    rw [bounded, if_neg (by omega), if_pos (by omega)]
  | true =>
    simp only [signed, if_true]
    refine ⟨fun under => ?_, fun past => absurd past (by omega)⟩
    rw [bounded, if_pos (by omega)]

/-- Digits are read as the number that they stand for, as far as that is within the bounds. -/
theorem accumulate_digits {digits : List Char} (numeric : ∀ c ∈ digits, c.isDigit = true)
    (natural : low ≤ 0 ∧ 0 ≤ high) (negative : Bool) {n : Nat}
    (start : low ≤ signed negative n ∧ signed negative n ≤ high) :
    accumulate low high negative (signed negative n) digits =
      bounded low high (signed negative (Nat.ofDigitChars 10 digits n)) := by
  induction digits generalizing n with
  | nil => exact (bounded_of_le start.1 start.2).symm
  | cons c rest ih =>
    obtain ⟨digit, numeric⟩ := List.forall_mem_cons.mp numeric
    obtain ⟨smaller, larger⟩ := bounded_of_longer negative
      (le_ofDigitChars rest (10 * n + (c.toNat - '0'.toNat))) natural
    rw [Nat.ofDigitChars_cons, accumulate, digit?, if_pos digit]
    simp only [signed_next]
    split
    · next under => exact (smaller under).symm
    · next above =>
      split
      · next past => exact (larger past).symm
      · next below => exact ih numeric ⟨Int.not_lt.mp above, Int.not_lt.mp below⟩

theorem le_of_accumulate {result : Int} {negative : Bool}
    (done : accumulate low high negative value text = .ok result) (start : value ≤ high) : result ≤ high := by
  induction text generalizing value with
  | nil =>
    cases done
    exact start
  | cons c rest ih =>
    obtain ⟨_, next, ⟨_, within⟩, done⟩ := accumulate_cons done
    exact ih done within

theorem le_of_ofChars {result : Int} (natural : 0 ≤ high) (done : ofChars low high text = .ok result) :
    result ≤ high := by
  unfold ofChars at done
  split at done
  · cases done
  · cases done
  · cases done
  · exact le_of_accumulate done natural
  · split at done
    · exact le_of_accumulate done natural
    · cases done
  · exact le_of_accumulate done natural

theorem le_of_word64OfText {text : String} {n : Nat} (done : word64OfText text = .ok n) :
    (n : Int) ≤ maxWord64 := by
  cases read : ofChars 0 maxWord64 text.toList with
  | error malformed => simp [word64OfText, read, Except.map] at done
  | ok result =>
    obtain rfl : result.toNat = n := by simpa [word64OfText, read, Except.map] using done
    have bounded := le_of_ofChars (by decide) read
    have positive : 0 ≤ maxWord64 := by decide
    omega

/-! Decimal notation. -/

theorem isDigit_of_mem_toDigits {n : Nat} {c : Char} (member : c ∈ Nat.toDigits 10 n) : c.isDigit = true :=
  Nat.isDigit_of_mem_toDigits (by decide) (by decide) member

theorem toList_toString (n : Nat) : (toString n).toList = Nat.toDigits 10 n := by
  rw [Nat.toString_eq_repr, Nat.toList_repr]

theorem isDigit_of_mem_toString {n : Nat} {c : Char} (member : c ∈ (toString n).toList) : c.isDigit = true :=
  isDigit_of_mem_toDigits (toList_toString n ▸ member)

/-- A negative integer has a minus sign before its digits. -/
theorem toList_toString_int (i : Int) : (toString i).toList =
    if i < 0 then '-' :: Nat.toDigits 10 i.natAbs else Nat.toDigits 10 i.natAbs := by
  cases i with
  | ofNat n =>
    have above : ¬ Int.ofNat n < 0 := Int.not_lt.mpr (Int.natCast_nonneg n)
    rw [if_neg above]
    exact toList_toString n
  | negSucc n =>
    have signed : toString (Int.negSucc n) = "-" ++ (n + 1).repr := rfl
    have sign : "-".toList = ['-'] := rfl
    rw [if_pos (Int.negSucc_lt_zero n), signed, String.toList_append, sign, Nat.toList_repr]
    rfl

/-- Integers are written in digits and minus signs. -/
theorem plain_toString (i : Int) : ∀ c ∈ (toString i).toList, c.isDigit = true ∨ c = '-' := by
  have digits : ∀ c ∈ Nat.toDigits 10 i.natAbs, c.isDigit = true ∨ c = '-' := fun _ member =>
    .inl (isDigit_of_mem_toDigits member)
  rw [toList_toString_int]
  split
  · exact List.forall_mem_cons.mpr ⟨.inr rfl, digits⟩
  · exact digits

theorem toString_ne_empty (i : Int) : toString i ≠ "" := by
  intro empty
  have none := toList_toString_int i
  rw [empty] at none
  split at none
  · cases none
  · exact Nat.toDigits_ne_nil none.symm

theorem ofChars_digits {digits : List Char} (numeric : ∀ c ∈ digits, c.isDigit = true) (full : digits ≠ []) :
    ofChars low high digits = accumulate low high false 0 digits := by
  have unsigned {c : Char} {rest : List Char} (sign : c.isDigit = false) : digits ≠ c :: rest :=
    fun same => by cases sign.symm.trans (numeric c (same ▸ List.mem_cons_self))
  rw [ofChars]
  · exact full
  · exact unsigned rfl
  · exact unsigned rfl
  · exact fun _ => unsigned rfl
  · exact fun _ => unsigned rfl

theorem ofChars_minus {digits : List Char} (full : digits ≠ []) (below : low < 0) :
    ofChars low high ('-' :: digits) = accumulate low high true 0 digits := by
  cases digits with
  | nil => exact absurd rfl full
  | cons c rest => rw [ofChars, if_pos below]; simp

/-- An integer is read from its decimal notation as far as it lies within the bounds. -/
theorem ofChars_toString (natural : low ≤ 0 ∧ 0 ≤ high) {i : Int} (sign : low < 0 ∨ 0 ≤ i) :
    ofChars low high (toString i).toList = bounded low high i := by
  have read (negative : Bool) : accumulate low high negative 0 (Nat.toDigits 10 i.natAbs) =
      bounded low high (signed negative i.natAbs) := by
    have zero : signed negative 0 = 0 := by cases negative <;> rfl
    have numeric : ∀ c ∈ Nat.toDigits 10 i.natAbs, c.isDigit = true := fun _ => isDigit_of_mem_toDigits
    have accumulated := accumulate_digits numeric natural negative (n := 0) (by rwa [zero])
    rwa [zero, Nat.ofDigitChars_ten_toDigits] at accumulated
  rw [toList_toString_int]
  split
  · next below =>
    rw [ofChars_minus Nat.toDigits_ne_nil (by omega), read]
    congr 1
    simp only [signed, if_true]
    omega
  · next above =>
    rw [ofChars_digits (fun _ => isDigit_of_mem_toDigits) Nat.toDigits_ne_nil, read]
    congr 1
    simp only [signed, Bool.false_eq_true, if_false]
    omega

/-- A number that fits in a word is read from its digits. -/
theorem word64OfText_toString {n : Nat} (small : (n : Int) ≤ maxWord64) :
    word64OfText (toString n) = .ok n := by
  have whole : ofChars 0 maxWord64 (toString n).toList = .ok (n : Int) :=
    (ofChars_toString ⟨Int.le_refl 0, by decide⟩ (.inr (Int.natCast_nonneg n))).trans
      (bounded_of_le (Int.natCast_nonneg n) small)
  rw [word64OfText, whole]
  rfl

theorem int64OfText_toString (i : Int) :
    int64OfText (toString i) = (bounded minInt64 maxInt64 i).map Int64.ofInt := by
  rw [int64OfText, ofChars_toString (by decide) (.inl (by decide))]

/-- An integer of sixty-four bits is read from its decimal notation. -/
theorem int64OfText_toInt (i : Int64) : int64OfText (toString i.toInt) = .ok i := by
  have low : minInt64 ≤ i.toInt := i.le_toInt
  have high : i.toInt < maxInt64 + 1 := i.toInt_lt
  rw [int64OfText_toString, bounded_of_le low (by omega)]
  exact congrArg Except.ok (Int64.ofInt_toInt i)

end Directives.Integer
