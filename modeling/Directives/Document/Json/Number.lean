import Directives.Document

/-! Numbers of JSON texts. Integers of sixty-four bits are exact. Any other number is the first
digits that fit in sixty-four bits, rounded, and then multiplied or divided by a rounded power of
ten, so that it may miss the nearest value by a unit in the last place. -/
namespace Directives.Document.Json

/-- A number taken apart. -/
structure Numeral where
  negative : Bool
  whole : List Char
  fraction : Option (List Char)
  /-- Whether the exponent is negative, and its digits. -/
  exponent : Option (Bool × List Char)
  deriving DecidableEq, Repr

def readExponent : List Char → Option (Option (Bool × List Char))
  | [] => some none
  | mark :: rest =>
    if mark ≠ 'e' && mark ≠ 'E' then none
    else
      let (negative, digits) := match rest with
        | '-' :: digits => (true, digits)
        | '+' :: digits => (false, digits)
        | digits => (false, digits)
      if digits.isEmpty || !digits.all Char.isDigit then none else some (some (negative, digits))

/-- Takes a number apart. An integer part has no needless zero in front, and digits stand on both
sides of a point. -/
def Numeral.ofChars (text : List Char) : Option Numeral :=
  let (negative, text) := match text with
    | '-' :: rest => (true, rest)
    | _ => (false, text)
  let whole := text.takeWhile Char.isDigit
  let rest := text.dropWhile Char.isDigit
  if whole.isEmpty || (whole.head? = some '0' && 1 < whole.length) then none
  else
    match rest with
    | '.' :: rest =>
      let fraction := rest.takeWhile Char.isDigit
      if fraction.isEmpty then none
      else (readExponent (rest.dropWhile Char.isDigit)).map (⟨negative, whole, some fraction, ·⟩)
    | rest => (readExponent rest).map (⟨negative, whole, none, ·⟩)

def digitValue (c : Char) : Nat := c.toNat - '0'.toNat

def natOfDigits (digits : List Char) : Nat :=
  digits.foldl (fun n c => n * 10 + digitValue c) 0

/-- Appends digits to a significand while it fits in sixty-four bits; what remains is left over. -/
def fill (significand : Nat) : List Char → Nat × List Char
  | [] => (significand, [])
  | c :: rest =>
    let next := significand * 10 + digitValue c
    if next < 18446744073709551616 then fill next rest else (significand, c :: rest)

/-- The largest exponent of ten whose power is finite. -/
def maxPower : Nat := 308

def power (n : Nat) : Binary64 := .ofDecimal false 1 n

/-- Brings a value down by powers of ten too large for one division. -/
def shrink : Nat → Binary64 → Nat → Binary64
  | 0, x, _ => x
  | fuel + 1, x, exponent =>
    if exponent ≤ maxPower then x.div (power exponent)
    else if x.isZero then x
    else shrink fuel (x.div (power maxPower)) (exponent - maxPower)

/-- The significand as a float, scaled by a power of ten; none where that is infinite. -/
def scale (significand : Nat) (exponent : Int) : Option Binary64 :=
  let x := Binary64.ofInt significand
  if 0 ≤ exponent then
    if exponent.toNat ≤ maxPower then
      let scaled := x.mul (power exponent.toNat)
      if scaled.isFinite then some scaled else none
    else if x.isZero then some x
    else none
  else some (shrink (exponent.natAbs / maxPower + 2) x exponent.natAbs)

/-- Exponents are held in thirty-two bits. -/
def clampExponent (e : Int) : Int := max (-2147483648) (min 2147483647 e)

/-- The value of a number with a fraction, an exponent or too many digits. -/
def Numeral.inexact (n : Numeral) : Option Binary64 :=
  let (significand, excess) := fill 0 n.whole
  let (significand, exponent) := match n.fraction, excess with
    | none, _ => (significand, (excess.length : Int))
    | some digits, excess =>
      let (filled, ignored) := fill significand digits
      (filled, (excess.length : Int) - (digits.length - ignored.length : Nat))
  let signed (x : Binary64) := if n.negative then x.neg else x
  match n.exponent with
  | none => (scale significand exponent).map signed
  | some (negative, digits) =>
    let e := natOfDigits digits
    if 2147483647 < e then
      if significand ≠ 0 && !negative then none else some (signed (.zero false))
    else
      (scale significand (clampExponent (if negative then exponent - e else exponent + e))).map
        signed

/-- The document of a number. Minus zero is a float. -/
def Numeral.toDocument (n : Numeral) : Option Document :=
  let value := natOfDigits n.whole
  if n.fraction.isNone && n.exponent.isNone && value < 18446744073709551616 then
    if !n.negative then some (.integer value)
    else if value ≠ 0 && value ≤ 9223372036854775808 then some (.integer (-value))
    else some (.float (Binary64.ofInt value).neg)
  else n.inexact.map .float

end Directives.Document.Json
