import Directives.Binary64

/-! The shortest decimal that identifies a binary value: on the coarsest decimal grid that has a
point in the value's rounding interval, the point nearest to the value. -/
namespace Directives.Decimal

/-- The number `digits * 10 ^ exponent`. -/
structure Scientific where
  digits : Nat
  exponent : Int
  deriving DecidableEq, Repr

/-- Where a value lies halfway between two grid points. -/
inductive Tie
  | toEven
  | upward
  deriving DecidableEq, Repr

/-- The reals that round to one positive value: `lower`, `value` and `upper` over a common
denominator, the ends included where `closed`. -/
structure Interval where
  lower : Nat
  value : Nat
  upper : Nat
  denominator : Nat
  closed : Bool

/-- The interval of `significand * 2 ^ exponent`. Below a power of two the gap is half as wide. -/
def Interval.around (significand : Nat) (exponent : Int) : Interval :=
  let narrow := significand == Nat.pow 2 52 && Binary64.minExponent < exponent
  let quarter := exponent - 2
  let scale := if 0 ≤ quarter then Nat.pow 2 quarter.toNat else 1
  { lower := (4 * significand - (if narrow then 1 else 2)) * scale
    value := 4 * significand * scale
    upper := (4 * significand + 2) * scale
    denominator := if 0 ≤ quarter then 1 else Nat.pow 2 (-quarter).toNat
    closed := significand % 2 == 0 }

def Interval.contains (i : Interval) (point : Nat) (exponent : Int) : Bool :=
  let p := if 0 ≤ exponent then point * Nat.pow 10 exponent.toNat * i.denominator
    else point * i.denominator
  let unit := if 0 ≤ exponent then 1 else Nat.pow 10 (-exponent).toNat
  if i.closed then i.lower * unit ≤ p && p ≤ i.upper * unit
  else i.lower * unit < p && p < i.upper * unit

/-- The least exponent of ten whose power exceeds `num / den`, searched upwards from a guess
within `fuel` steps. -/
def ceilingFrom (num den : Nat) : Nat → Int → Int
  | 0, k => k
  | fuel + 1, k =>
    let exceeds :=
      if 0 ≤ k then num < Nat.pow 10 k.toNat * den else num * Nat.pow 10 (-k).toNat < den
    if exceeds then k else ceilingFrom num den fuel (k + 1)

/-- The least `k` with `num / den < 10 ^ k`. -/
def ceilingExponent (num den : Nat) : Int :=
  let bits : Int := (Nat.log2 num : Int) - Nat.log2 den
  ceilingFrom num den 5 ((bits - 1) * 30103 / 100000 - 1)

/-- Of the two neighbours of the value on the grid of `10 ^ exponent`, the one in the interval,
and of two the nearer. -/
def pointOn (tie : Tie) (i : Interval) (exponent : Int) : Option Nat :=
  let num := if 0 ≤ exponent then i.value else i.value * Nat.pow 10 (-exponent).toNat
  let den := if 0 ≤ exponent then i.denominator * Nat.pow 10 exponent.toNat else i.denominator
  let low := num / den
  let rest := 2 * (num % den)
  match i.contains low exponent && low != 0, i.contains (low + 1) exponent with
  | true, true =>
    if rest < den then some low
    else if den < rest then some (low + 1)
    else match tie with
      | .toEven => some (if low % 2 = 0 then low else low + 1)
      | .upward => some (low + 1)
  | true, false => some low
  | false, true => some (low + 1)
  | false, false => none

def search (tie : Tie) (i : Interval) (top : Int) : Nat → Int → Option Scientific
  | 0, _ => none
  | fuel + 1, n =>
    match pointOn tie i (top - n) with
    | some point => some ⟨point, top - n⟩
    | none => search tie i top fuel (n + 1)

/-- Moves trailing zeros of the digits into the exponent, at most `fuel` of them. -/
def strip : Nat → Scientific → Scientific
  | 0, s => s
  | fuel + 1, s =>
    if s.digits ≠ 0 && s.digits % 10 = 0 then strip fuel ⟨s.digits / 10, s.exponent + 1⟩ else s

def exact (significand : Nat) (exponent : Int) : Scientific :=
  if 0 ≤ exponent then ⟨significand * Nat.pow 2 exponent.toNat, 0⟩
  else ⟨significand * Nat.pow 5 (-exponent).toNat, exponent⟩

/-- The shortest decimal that rounds to `significand * 2 ^ exponent`. -/
def shortest (tie : Tie) (significand : Nat) (exponent : Int) : Scientific :=
  let i := Interval.around significand exponent
  let found := search tie i (ceilingExponent i.value i.denominator) 17 1
  strip 400 (found.getD (exact significand exponent))

end Directives.Decimal
