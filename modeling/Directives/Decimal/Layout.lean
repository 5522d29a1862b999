import Directives.Decimal.Shortest

/-! How a binary value is written. A layout is one record of decisions; the digits are always the
shortest that identify the value. -/
namespace Directives.Decimal

/-- The decisions of one written form of numbers. -/
structure Layout where
  /-- Which digits are taken when two are equally near. -/
  tie : Tie
  /-- Numbers with more integer digits than this take an exponent; none if absent. -/
  positionalAbove : Option Int
  /-- Numbers with more zeros than this after the point take an exponent; none if absent. -/
  positionalBelow : Option Int
  /-- Whether an integer keeps `.0`. -/
  pointZero : Bool
  /-- What stands before a positive exponent. -/
  positiveSign : String
  positiveInfinity : String
  negativeInfinity : String
  notANumber : String

/-- Digits with the point after the first `point` of them, zeros filled in on either side. -/
def positional (layout : Layout) (digits : List Char) (point : Int) : List Char :=
  if point ≤ 0 then
    ['0', '.'] ++ List.replicate (-point).toNat '0' ++ digits
  else if (digits.length : Int) ≤ point then
    digits ++ List.replicate (point - digits.length).toNat '0' ++
      (if layout.pointZero then ['.', '0'] else [])
  else digits.take point.toNat ++ '.' :: digits.drop point.toNat

/-- One digit, the others after a point, and the power of ten. -/
def withExponent (layout : Layout) (digits : List Char) (power : Int) : List Char :=
  let mantissa := match digits with
    | [] => []
    | [d] => [d]
    | d :: rest => d :: '.' :: rest
  mantissa ++ 'e' :: ((if 0 ≤ power then layout.positiveSign else "") ++ toString power).toList

def layOut (layout : Layout) (s : Scientific) : List Char :=
  let digits := Nat.toDigits 10 s.digits
  let point := (digits.length : Int) + s.exponent
  let small := match layout.positionalBelow with
    | some zeros => point ≤ -zeros
    | none => false
  let large := match layout.positionalAbove with
    | some places => places < point
    | none => false
  if small || large then withExponent layout digits (point - 1)
  else positional layout digits point

def write (layout : Layout) (x : Binary64) : String :=
  match x.read with
  | .nan => layout.notANumber
  | .infinite negative => if negative then layout.negativeInfinity else layout.positiveInfinity
  | .finite negative significand exponent =>
    let body := if significand = 0 then (if layout.pointZero then ['0', '.', '0'] else ['0'])
      else layOut layout (shortest layout.tie significand exponent)
    String.ofList (if negative then '-' :: body else body)

end Directives.Decimal
