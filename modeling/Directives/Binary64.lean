/-! Binary floating point of 64 bits. A finite value is an integer times a power of two, and every
operation rounds the exact result to the nearest value, ties to the even significand. -/
namespace Directives

/-- A value is known by its bits: sign, eleven bits of exponent, fifty-two of significand. -/
structure Binary64 where
  bits : BitVec 64
  deriving DecidableEq, Repr, Inhabited

namespace Binary64

/-- What the bits stand for. A finite value is `significand * 2 ^ exponent` with its sign. -/
inductive Reading
  | nan
  | infinite (negative : Bool)
  | finite (negative : Bool) (significand : Nat) (exponent : Int)
  deriving DecidableEq, Repr

def minExponent : Int := -1074

def read (x : Binary64) : Reading :=
  let word := x.bits.toNat
  let negative := word / Nat.pow 2 63 == 1
  let biased : Nat := word / Nat.pow 2 52 % 2048
  let fraction : Nat := word % Nat.pow 2 52
  if biased = 2047 then
    if fraction = 0 then .infinite negative else .nan
  else if biased = 0 then .finite negative fraction minExponent
  else .finite negative (Nat.pow 2 52 + fraction) ((biased : Int) - 1075)

def ofMagnitude (negative : Bool) (magnitude : Nat) : Binary64 :=
  ⟨BitVec.ofNat 64 (if negative then Nat.pow 2 63 + magnitude else magnitude)⟩

def infinityMagnitude : Nat := 2047 * Nat.pow 2 52

def infinity (negative : Bool) : Binary64 := ofMagnitude negative infinityMagnitude

def zero (negative : Bool) : Binary64 := ofMagnitude negative 0

/-- The one not-a-number that this library makes. -/
def nan : Binary64 := ofMagnitude false (infinityMagnitude + Nat.pow 2 51)

def isNaN (x : Binary64) : Bool := x.read == .nan

def isFinite (x : Binary64) : Bool :=
  match x.read with
  | .finite .. => true
  | _ => false

def isZero (x : Binary64) : Bool :=
  match x.read with
  | .finite _ significand _ => significand == 0
  | _ => false

/-- Equality of numbers: a NaN equals nothing, and the two zeros are equal. -/
def numEq (x y : Binary64) : Bool :=
  !x.isNaN && !y.isNaN && (x == y || (x.isZero && y.isZero))

/-- The integer nearest to a quotient; a tie goes to the even one. -/
def nearestEven (num den : Nat) : Nat :=
  let q := num / den
  let r := num % den
  if den < 2 * r || (2 * r == den && q % 2 == 1) then q + 1 else q

/-- A numerator and denominator after multiplication by `2 ^ shift`. -/
def shiftRatio (num den : Nat) (shift : Int) : Nat × Nat :=
  if 0 ≤ shift then (num * Nat.pow 2 shift.toNat, den) else (num, den * Nat.pow 2 (-shift).toNat)

/-- The exponent at which a positive quotient has fifty-three significant bits, or the least one. -/
def exponentFor (num den : Nat) : Int :=
  let guess : Int := (Nat.log2 num : Int) - Nat.log2 den - 52
  let (n, d) := shiftRatio num den (-guess)
  let fitted := if n < Nat.pow 2 52 * d then guess - 1 else guess
  max fitted minExponent

/-- The value nearest to `num / den`, infinite where that lies beyond the largest finite one. -/
def ofRatio (negative : Bool) (num den : Nat) : Binary64 :=
  if num = 0 then zero negative
  else
    let e := exponentFor num den
    let (n, d) := shiftRatio num den (-e)
    if 1023 < e then infinity negative
    else
      ofMagnitude negative
        (min infinityMagnitude ((e - minExponent).toNat * Nat.pow 2 52 + nearestEven n d))

def ofInt (i : Int) : Binary64 := ofRatio (decide (i < 0)) i.natAbs 1

/-- The value nearest to `digits * 10 ^ exponent`. Exponents far outside the range of finite
values are settled without building the power. -/
def ofDecimal (negative : Bool) (digits : Nat) (exponent : Int) : Binary64 :=
  let length : Int := (Nat.toDigits 10 digits).length
  if digits = 0 then zero negative
  else if 310 < length + exponent then infinity negative
  else if length + exponent < -330 then zero negative
  else if 0 ≤ exponent then ofRatio negative (digits * Nat.pow 10 exponent.toNat) 1
  else ofRatio negative digits (Nat.pow 10 (-exponent).toNat)

def mul (x y : Binary64) : Binary64 :=
  match x.read, y.read with
  | .nan, _ | _, .nan => nan
  | .infinite s, .infinite t => infinity (s != t)
  | .infinite s, .finite t m _ | .finite s m _, .infinite t =>
    if m = 0 then nan else infinity (s != t)
  | .finite s m e, .finite t n f =>
    let (num, den) := shiftRatio (m * n) 1 (e + f)
    ofRatio (s != t) num den

def div (x y : Binary64) : Binary64 :=
  match x.read, y.read with
  | .nan, _ | _, .nan | .infinite _, .infinite _ => nan
  | .infinite s, .finite t _ _ => infinity (s != t)
  | .finite s _ _, .infinite t => zero (s != t)
  | .finite s m e, .finite t n f =>
    if n = 0 then (if m = 0 then nan else infinity (s != t))
    else
      let (num, den) := shiftRatio m n (e - f)
      ofRatio (s != t) num den

def neg (x : Binary64) : Binary64 := ⟨x.bits ^^^ BitVec.ofNat 64 (Nat.pow 2 63)⟩

end Binary64
end Directives
