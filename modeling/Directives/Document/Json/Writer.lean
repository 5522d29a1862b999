import Directives.Document
import Directives.Decimal.Layout

/-! Documents as JSON text, on one line or indented. -/
namespace Directives.Document.Json

/-- Numbers take an exponent beyond sixteen integer digits or five leading zeros, and keep a point
where they take none. -/
def number : Decimal.Layout where
  tie := .toEven
  positionalAbove := some 16
  positionalBelow := some 5
  pointZero := true
  positiveSign := "+"
  positiveInfinity := "null"
  negativeInfinity := "null"
  notANumber := "null"

def codeEscape (c : Char) : List Char :=
  let digits := Nat.toDigits 16 c.toNat
  ['\\', 'u'] ++ List.replicate (4 - digits.length) '0' ++ digits

def escapeChar (c : Char) : List Char :=
  match c with
  | '"' => ['\\', '"']
  | '\\' => ['\\', '\\']
  | '\x08' => ['\\', 'b']
  | '\x0c' => ['\\', 'f']
  | '\n' => ['\\', 'n']
  | '\r' => ['\\', 'r']
  | '\t' => ['\\', 't']
  | c => if c.toNat < 0x20 then codeEscape c else [c]

def quote (s : String) : List Char := '"' :: (s.toList.flatMap escapeChar ++ ['"'])

inductive Style
  | compact
  | indented
  deriving DecidableEq

/-- A line break and the indentation of a level, where the style has any. -/
def Style.break : Style → Nat → List Char
  | compact, _ => []
  | indented, level => '\n' :: List.replicate (2 * level) ' '

def Style.colon : Style → List Char
  | compact => [':']
  | indented => [':', ' ']

mutual

/-- The text of a document at a level of indentation. -/
def write (style : Style) (level : Nat) : Document → List Char
  | null => "null".toList
  | bool b => (toString b).toList
  | integer i => (toString i).toList
  | float x => (Decimal.write number x).toList
  | text s => quote s
  | list [] => ['[', ']']
  | list (item :: rest) =>
    '[' :: (style.break (level + 1) ++ write style (level + 1) item ++
      writeItems style (level + 1) rest ++ style.break level ++ [']'])
  | object [] => ['{', '}']
  | object ((key, value) :: rest) =>
    '{' :: (style.break (level + 1) ++ quote key ++ style.colon ++ write style (level + 1) value ++
      writeEntries style (level + 1) rest ++ style.break level ++ ['}'])
termination_by structural d => d

/-- The items behind the first, each after a comma. -/
def writeItems (style : Style) (level : Nat) : List Document → List Char
  | [] => []
  | item :: rest =>
    ',' :: (style.break level ++ write style level item ++ writeItems style level rest)
termination_by structural ds => ds

def writeEntries (style : Style) (level : Nat) : List (String × Document) → List Char
  | [] => []
  | (key, value) :: rest =>
    ',' :: (style.break level ++ quote key ++ style.colon ++ write style level value ++
      writeEntries style level rest)
termination_by structural es => es

end

def compactText (d : Document) : String := String.ofList (write .compact 0 d)

def indentedText (d : Document) : String := String.ofList (write .indented 0 d)

end Directives.Document.Json
