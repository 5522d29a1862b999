import Directives.Document.Json.Number

/-! The tokens of a JSON text, read in one pass over its characters. -/
namespace Directives.Document.Json

/-- A token: a bracket, a separator, or a whole scalar. -/
inductive Token
  | openList
  | closeList
  | openObject
  | closeObject
  | comma
  | colon
  | text (value : String)
  /-- A number, `true`, `false` or `null`. -/
  | scalar (value : Document)

/-- What the reader is in the middle of. Characters already read stand in reverse. -/
inductive Reading
  | between
  | word (letters : List Char)
  | number (digits : List Char)
  | text (value : List Char)
  | escape (value : List Char)
  /-- So many hexadecimal digits of an escape are still to come; `high` is the first half of a
  surrogate pair whose second half this is. -/
  | hex (value : List Char) (high : Option Nat) (count code : Nat)
  /-- Behind the first half of a pair, before the backslash and before the `u` of the second. -/
  | pair (value : List Char) (high : Nat) (backslash : Bool)

def isSpace (c : Char) : Bool := c == ' ' || c == '\t' || c == '\n' || c == '\r'

def isNumeric (c : Char) : Bool :=
  c.isDigit || c == '-' || c == '+' || c == '.' || c == 'e' || c == 'E'

def hexDigit? (c : Char) : Option Nat :=
  if c.isDigit then some (c.toNat - '0'.toNat)
  else if 'a' ≤ c ∧ c ≤ 'f' then some (c.toNat - 'a'.toNat + 10)
  else if 'A' ≤ c ∧ c ≤ 'F' then some (c.toNat - 'A'.toNat + 10)
  else none

/-- What a character begins, outside of words, numbers and texts. -/
def begin (c : Char) : Option (Option Token × Reading) :=
  match c with
  | '[' => some (some .openList, .between)
  | ']' => some (some .closeList, .between)
  | '{' => some (some .openObject, .between)
  | '}' => some (some .closeObject, .between)
  | ',' => some (some .comma, .between)
  | ':' => some (some .colon, .between)
  | '"' => some (none, .text [])
  | c =>
    if isSpace c then some (none, .between)
    else if c.isDigit || c == '-' then some (none, .number [c])
    else if c.isLower then some (none, .word [c])
    else none

def wordToken (letters : List Char) : Option Token :=
  match String.ofList letters.reverse with
  | "true" => some (.scalar (.bool true))
  | "false" => some (.scalar (.bool false))
  | "null" => some (.scalar .null)
  | _ => none

def numberToken (digits : List Char) : Option Token :=
  (Numeral.ofChars digits.reverse).bind fun n => n.toDocument.map .scalar

/-- The character that stands behind a backslash, unless it is the `u` of a code. -/
def escaped? (c : Char) : Option Char :=
  match c with
  | '"' => some '"'
  | '\\' => some '\\'
  | '/' => some '/'
  | 'b' => some '\x08'
  | 'f' => some '\x0c'
  | 'n' => some '\n'
  | 'r' => some '\r'
  | 't' => some '\t'
  | _ => none

/-- Goes on after a complete four-digit code. -/
def afterCode (value : List Char) (code : Nat) : Option Nat → Option Reading
  | none =>
    if 0xD800 ≤ code ∧ code < 0xDC00 then some (.pair value code false)
    else if 0xDC00 ≤ code ∧ code < 0xE000 then none
    else some (.text (Char.ofNat code :: value))
  | some high =>
    if 0xDC00 ≤ code ∧ code < 0xE000 then
      some (.text (Char.ofNat (0x10000 + (high - 0xD800) * 0x400 + (code - 0xDC00)) :: value))
    else none

def inside (c : Char) : Reading → Option (Option Token × Reading)
  | .text value =>
    if c = '"' then some (some (.text (String.ofList value.reverse)), .between)
    else if c = '\\' then some (none, .escape value)
    else if c.toNat < 0x20 then none
    else some (none, .text (c :: value))
  | .escape value =>
    if c = 'u' then some (none, .hex value none 4 0)
    else (escaped? c).map fun e => (none, .text (e :: value))
  | .hex value high count code =>
    match hexDigit? c with
    | none => none
    | some d =>
      if count ≤ 1 then (afterCode value (code * 16 + d) high).map (none, ·)
      else some (none, .hex value high (count - 1) (code * 16 + d))
  | .pair value high backslash =>
    if backslash then if c = 'u' then some (none, .hex value (some high) 4 0) else none
    else if c = '\\' then some (none, .pair value high true) else none
  | _ => none

/-- Takes one character; words and numbers end at the first that does not belong to them. -/
def take (reading : Reading) (c : Char) : Option (List Token × Reading) :=
  let plain (found : Option (Option Token × Reading)) : Option (List Token × Reading) :=
    found.map fun (token, next) => (token.toList, next)
  match reading with
  | .between => plain (begin c)
  | .word letters =>
    if c.isLower then some ([], .word (c :: letters))
    else do
      let token ← wordToken letters
      let (more, next) ← begin c
      return (token :: more.toList, next)
  | .number digits =>
    if isNumeric c then some ([], .number (c :: digits))
    else do
      let token ← numberToken digits
      let (more, next) ← begin c
      return (token :: more.toList, next)
  | reading => plain (inside c reading)

/-- The tokens from the middle of a reading to the end of the text. -/
def tokensFrom (reading : Reading) : List Char → Option (List Token)
  | [] =>
    match reading with
    | .between => some []
    | .word letters => (wordToken letters).map ([·])
    | .number digits => (numberToken digits).map ([·])
    | _ => none
  | c :: rest =>
    match take reading c with
    | none => none
    | some (tokens, next) => (tokensFrom next rest).map (tokens ++ ·)

def tokens (text : String) : Option (List Token) := tokensFrom .between text.toList

end Directives.Document.Json
