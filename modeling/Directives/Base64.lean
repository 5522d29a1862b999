import Directives.Text.Blank
import Directives.Text.Utf8

/-! Octets as text of sixty-four symbols, four for three octets, padded at the end. Reading accepts
only what writing produces: full padding, and no bits set beyond the last octet. -/
namespace Directives.Base64

/-- Why a text encodes nothing. Offsets count octets. -/
inductive Malformed
  | symbol (offset : Nat) (octet : UInt8)
  | length (count : Nat)
  | padding
  | lastSymbol (offset : Nat) (octet : UInt8)
  deriving DecidableEq, Repr

def Malformed.message : Malformed → String
  | symbol offset octet => s!"Invalid symbol {octet.toNat}, offset {offset}."
  | length count => s!"Invalid input length: {count}"
  | padding => "Invalid padding"
  | lastSymbol offset octet => s!"Invalid last symbol {octet.toNat}, offset {offset}."

def pad : UInt8 := 61

def symbol (n : Nat) : UInt8 :=
  if n < 26 then .ofNat (65 + n)
  else if n < 52 then .ofNat (71 + n)
  else if n < 62 then .ofNat (n - 4)
  else if n = 62 then 43
  else 47

def value? (s : UInt8) : Option Nat :=
  let n := s.toNat
  if 65 ≤ n ∧ n ≤ 90 then some (n - 65)
  else if 97 ≤ n ∧ n ≤ 122 then some (n - 71)
  else if 48 ≤ n ∧ n ≤ 57 then some (n + 4)
  else if n = 43 then some 62
  else if n = 47 then some 63
  else none

def encode : List UInt8 → List UInt8
  | a :: b :: c :: rest =>
    let n := (a.toNat * 256 + b.toNat) * 256 + c.toNat
    symbol (n / 262144) :: symbol (n / 4096 % 64) :: symbol (n / 64 % 64) :: symbol (n % 64) ::
      encode rest
  | [a, b] =>
    let n := (a.toNat * 256 + b.toNat) * 4
    [symbol (n / 4096), symbol (n / 64 % 64), symbol (n % 64), pad]
  | [a] =>
    let n := a.toNat * 16
    [symbol (n / 64), symbol (n % 64), pad, pad]
  | [] => []

def value (offset : Nat) (s : UInt8) : Except Malformed Nat :=
  match value? s with
  | some n => .ok n
  | none => .error (.symbol offset s)

/-- The numbers of the symbols in the last group and the padding behind them. Padding stands only
in the last two places, and only padding follows it. -/
def lastGroup (start : Nat) (position : Nat) (symbols : List Nat) (firstPad : Option Nat) :
    List UInt8 → Except Malformed (List Nat × Nat)
  | [] => .ok (symbols, match firstPad with
    | some first => position - first
    | none => 0)
  | s :: rest =>
    if s = pad then
      if position < 2 then .error (.symbol (start + position) s)
      else lastGroup start (position + 1) symbols (firstPad.or (some position)) rest
    else
      match firstPad with
      | some first => .error (.symbol (start + first) pad)
      | none => do
        let n ← value (start + position) s
        lastGroup start (position + 1) (symbols ++ [n]) none rest

def decodeLast (start : Nat) (group : List UInt8) : Except Malformed (List UInt8) := do
  let (symbols, pads) ← lastGroup start 0 [] none group
  if group.isEmpty then return []
  if symbols.length < 2 then throw (.length (start + symbols.length))
  if (symbols.length + pads) % 4 ≠ 0 then throw .padding
  match symbols with
  | [a, b] =>
    if b % 16 ≠ 0 then throw (.lastSymbol (start + 1) (symbol b))
    return [.ofNat (a * 4 + b / 16)]
  | [a, b, c] =>
    if c % 4 ≠ 0 then throw (.lastSymbol (start + 2) (symbol c))
    return [.ofNat (a * 4 + b / 16), .ofNat (b % 16 * 16 + c / 4)]
  | [a, b, c, d] =>
    return [.ofNat (a * 4 + b / 16), .ofNat (b % 16 * 16 + c / 4), .ofNat (c % 4 * 64 + d)]
  | _ => throw .padding

/-- Reads groups of four symbols from an offset on; the last group may be padded. -/
def decodeGroups (offset : Nat) : List UInt8 → Except Malformed (List UInt8)
  | s :: t :: u :: v :: w :: rest => do
    let a ← value offset s
    let b ← value (offset + 1) t
    let c ← value (offset + 2) u
    let d ← value (offset + 3) v
    let more ← decodeGroups (offset + 4) (w :: rest)
    return .ofNat (a * 4 + b / 16) :: .ofNat (b % 16 * 16 + c / 4) :: .ofNat (c % 4 * 64 + d) ::
      more
  | group => decodeLast offset group

/-- Reads octets. Where a single symbol is left over, that symbol is looked at first. -/
def decode (text : List UInt8) : Except Malformed (List UInt8) :=
  match text.length % 4, text.getLast? with
  | 1, some last =>
    if last ≠ pad && (value? last).isNone then .error (.symbol (text.length - 1) last)
    else decodeGroups 0 text
  | _, _ => decodeGroups 0 text

def toText (octets : List UInt8) : String :=
  String.ofList ((encode octets).map fun s => Char.ofNat s.toNat)

/-- Reads octets from text, blanks around it left out. -/
def ofText (text : String) : Except Malformed (List UInt8) :=
  decode (Text.toUtf8 (String.ofList (Text.trimBlank text.toList)))

end Directives.Base64
