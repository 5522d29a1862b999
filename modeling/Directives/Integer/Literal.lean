/-! Integers in decimal notation, within bounds. A sign may precede the digits; nothing else may. -/
namespace Directives.Integer

inductive Malformed
  | empty
  | invalidDigit
  | tooLarge
  | tooSmall
  deriving DecidableEq, Repr

def Malformed.message : Malformed → String
  | empty => "cannot parse integer from empty string"
  | invalidDigit => "invalid digit found in string"
  | tooLarge => "number too large to fit in target type"
  | tooSmall => "number too small to fit in target type"

def digit? (c : Char) : Option Nat := if c.isDigit then some (c.toNat - '0'.toNat) else none

/-- Reads further digits behind `value`, adding or taking away each, and stops at the first that
is no digit or leaves the bounds. -/
def accumulate (low high : Int) (negative : Bool) : Int → List Char → Except Malformed Int
  | value, [] => .ok value
  | value, c :: rest =>
    match digit? c with
    | none => .error .invalidDigit
    | some d =>
      let scaled := value * 10
      let next := if negative then scaled - d else scaled + d
      if next < low then .error .tooSmall
      else if high < next then .error .tooLarge
      else accumulate low high negative next rest

/-- What is read on is a digit that leaves the value within the bounds. -/
theorem accumulate_cons {low high value result : Int} {negative : Bool} {c : Char} {rest : List Char}
    (done : accumulate low high negative value (c :: rest) = .ok result) :
    c.isDigit = true ∧ ∃ next, (low ≤ next ∧ next ≤ high) ∧
      accumulate low high negative next rest = .ok result := by
  rw [accumulate] at done
  cases digit : digit? c with
  | none => simp [digit] at done
  | some d =>
    simp only [digit] at done
    generalize (if negative = true then value * 10 - (d : Int) else value * 10 + d) = next at done
    split at done
    · cases done
    · next above =>
      split at done
      · cases done
      · next below =>
        refine ⟨Decidable.byContradiction fun other => ?_, next, ⟨?_, ?_⟩, done⟩
        · simp [digit?, other] at digit
        · exact Int.not_lt.mp above
        · exact Int.not_lt.mp below

/-- Reads an integer from `low` to `high`. A minus sign is a stray character unless there are
negative integers within the bounds. -/
def ofChars (low high : Int) (text : List Char) : Except Malformed Int :=
  match text with
  | [] => .error .empty
  | ['+'] | ['-'] => .error .invalidDigit
  | '+' :: digits => accumulate low high false 0 digits
  | '-' :: digits =>
    if low < 0 then accumulate low high true 0 digits else .error .invalidDigit
  | digits => accumulate low high false 0 digits

def minInt64 : Int := -9223372036854775808
def maxInt64 : Int := 9223372036854775807
def maxWord64 : Int := 18446744073709551615
def maxWord32 : Int := 4294967295

def int64OfText (text : String) : Except Malformed Int64 :=
  (ofChars minInt64 maxInt64 text.toList).map Int64.ofInt

def word64OfText (text : String) : Except Malformed Nat :=
  (ofChars 0 maxWord64 text.toList).map Int.toNat

def word32OfText (text : String) : Except Malformed Nat :=
  (ofChars 0 maxWord32 text.toList).map Int.toNat

end Directives.Integer
