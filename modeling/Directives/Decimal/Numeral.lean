import Directives.Binary64

/-! Decimal numerals with a point and an exponent, read as the nearest binary value. -/
namespace Directives.Decimal

def natOfDigits (digits : List Char) : Nat :=
  digits.foldl (fun n c => n * 10 + (c.toNat - '0'.toNat)) 0

/-- Takes a sign off the front; whether it was a minus. -/
def takeSign : List Char → Bool × List Char
  | '-' :: rest => (true, rest)
  | '+' :: rest => (false, rest)
  | text => (false, text)

/-- The power of ten behind `e`, if the rest of a numeral is one; zero if there is no rest. -/
def exponent? : List Char → Option Int
  | [] => some 0
  | mark :: rest =>
    let (negative, digits) := takeSign rest
    if mark.toLower ≠ 'e' || digits.isEmpty || !digits.all Char.isDigit then none
    else some (if negative then -(natOfDigits digits : Int) else natOfDigits digits)

/-- Reads a numeral: a sign, digits on at least one side of a point, and an exponent, of which
only some digits have to be there. -/
def ofNumeral? (text : List Char) : Option Binary64 :=
  let (negative, text) := takeSign text
  let whole := text.takeWhile Char.isDigit
  let rest := text.dropWhile Char.isDigit
  let (fraction, rest) := match rest with
    | '.' :: rest => (rest.takeWhile Char.isDigit, rest.dropWhile Char.isDigit)
    | rest => ([], rest)
  if whole.isEmpty && fraction.isEmpty then none
  else
    (exponent? rest).map fun e =>
      .ofDecimal negative (natOfDigits (whole ++ fraction)) (e - fraction.length)

end Directives.Decimal
