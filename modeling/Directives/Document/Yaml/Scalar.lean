import Directives.Decimal.Numeral
import Directives.Document
import Directives.Document.Yaml.Token

/-! What scalars stand for. A plain scalar is null, a truth value, a number or else a text; a tag
from the core schema settles which. -/
namespace Directives.Document.Yaml

def isNullWord (s : String) : Bool := s == "null" || s == "Null" || s == "NULL" || s == "~"

def boolOfWord? (s : String) : Option Bool :=
  if s == "true" || s == "True" || s == "TRUE" then some true
  else if s == "false" || s == "False" || s == "FALSE" then some false
  else none

/-- Digits with a needless zero in front are no number but a text. -/
def isPaddedDigits (text : List Char) : Bool :=
  let digits := match text with
    | '-' :: rest | '+' :: rest => rest
    | digits => digits
  match digits with
  | '0' :: _ :: _ => digits.all Char.isDigit
  | _ => false

def digitIn? (base : Nat) (c : Char) : Option Nat :=
  let n :=
    if c.isDigit then some (c.toNat - '0'.toNat)
    else if 'a' ≤ c ∧ c ≤ 'z' then some (c.toNat - 'a'.toNat + 10)
    else if 'A' ≤ c ∧ c ≤ 'Z' then some (c.toNat - 'A'.toNat + 10)
    else none
  n.filter (· < base)

def natIn? (base : Nat) (digits : List Char) : Option Nat :=
  if digits.isEmpty then none
  else digits.foldlM (fun n c => (digitIn? base c).map (n * base + ·)) 0

/-- The base that a mark such as `0x` announces, and the digits behind it. -/
def withBase? : List Char → Option (Nat × List Char)
  | '0' :: 'x' :: digits => some (16, digits)
  | '0' :: 'o' :: digits => some (8, digits)
  | '0' :: 'b' :: digits => some (2, digits)
  | _ => none

def magnitude? (text : List Char) : Option Nat :=
  match (withBase? text).bind fun (base, digits) => natIn? base digits with
  | some n => some n
  | none => natIn? 10 text

/-- An integer: a sign and digits. Decimal digits must not be padded. -/
def integer? (text : List Char) : Option Int :=
  let decimalAllowed := !isPaddedDigits text
  let signed (negative : Bool) (digits : List Char) : Option Int :=
    let n := if decimalAllowed then magnitude? digits
      else (withBase? digits).bind fun (base, digits) => natIn? base digits
    n.map fun n => if negative then -(n : Int) else n
  match text with
  | '-' :: digits => signed true digits
  | '+' :: digits => signed false digits
  | digits => signed false digits

/-- The range of integers that a document can hold, and the wider one of those that are still
read as integers. -/
def inDocumentRange (i : Int) : Bool := -9223372036854775808 ≤ i && i ≤ 18446744073709551615
def inWideRange (i : Int) : Bool := -(Nat.pow 2 127 : Int) ≤ i && i < (Nat.pow 2 128 : Int)

/-- A float, in one of the words for infinity and not-a-number or as a numeral of finite value. -/
def float? (s : String) : Option Binary64 :=
  if s == ".inf" || s == ".Inf" || s == ".INF" || s == "+.inf" || s == "+.Inf" || s == "+.INF" then
    some (.infinity false)
  else if s == "-.inf" || s == "-.Inf" || s == "-.INF" then some (.infinity true)
  else if s == ".nan" || s == ".NaN" || s == ".NAN" then some .nan
  else
    let numeral := match s.toList with
      | '+' :: '+' :: _ | '+' :: '-' :: _ => none
      | '+' :: rest => Decimal.ofNumeral? rest
      | digits => Decimal.ofNumeral? digits
    numeral.filter Binary64.isFinite

/-- An integer of a plain scalar, unless it is too large to be read as one. -/
def integerDocument? (text : List Char) : Except Problem (Option Document) :=
  match integer? text with
  | none => .ok none
  | some i =>
    if inDocumentRange i then .ok (some (.integer i))
    else if inWideRange i then .error (.content "integer out of range")
    else .ok none

def ofPlain (s : String) : Except Problem Document := do
  if s.isEmpty || isNullWord s then return .null
  match boolOfWord? s with
  | some b => return .bool b
  | none =>
    match ← integerDocument? s.toList with
    | some d => return d
    | none =>
      if isPaddedDigits s.toList then return .text s
      match float? s with
      | some x => return .float x
      | none => return .text s

def ofKind {α : Type} (make : α → Document) (expected : String) :
    Option α → Except Problem Document
  | some a => .ok (make a)
  | none => .error (.content s!"expected {expected}")

/-- What a scalar stands for. Tags of one's own stand for nothing here. -/
def ofScalar (tag : Option String) (manner : Manner) (s : String) : Except Problem Document :=
  match tag with
  | none => if manner = .plain then ofPlain s else .ok (.text s)
  | some "tag:yaml.org,2002:bool" => ofKind .bool "a boolean" (boolOfWord? s)
  | some "tag:yaml.org,2002:int" => do
    match ← integerDocument? s.toList with
    | some d => return d
    | none => throw (.content "expected an integer")
  | some "tag:yaml.org,2002:float" => ofKind .float "a float" (float? s)
  | some "tag:yaml.org,2002:null" =>
    if isNullWord s then .ok .null else .error (.content "expected null")
  | some tag =>
    if tag.startsWith "!" then .error (.content s!"unknown tag {tag}") else .ok (.text s)

end Directives.Document.Yaml
