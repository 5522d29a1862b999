/-! A place in a YAML text: the characters still to come, and how many came before, in all, in
lines and in the present line. -/
namespace Directives.Document.Yaml

def isAllowed (c : Char) : Bool :=
  let n := c.toNat
  n == 0x9 || n == 0xA || n == 0xD || (0x20 ≤ n && n ≤ 0x7E) || n == 0x85 ||
    (0xA0 ≤ n && n ≤ 0xD7FF) || (0xE000 ≤ n && n ≤ 0xFFFD) || 0x10000 ≤ n

def orderMark : Char := '\uFEFF'

def isBlank (c : Char) : Bool := c == ' ' || c == '\t'

/-- Line feed, carriage return, next line, and the line and paragraph separators. -/
def isBreak (c : Char) : Bool :=
  c == '\n' || c == '\r' || c == '\u0085' || c == '\u2028' || c == '\u2029'

def isSpaceOrBreak (c : Char) : Bool := isBlank c || isBreak c

/-- The characters of anchors and of tag handles. -/
def isWordChar (c : Char) : Bool := c.isAlphanum || c == '_' || c == '-'

structure Cursor where
  rest : List Char
  index : Nat := 0
  line : Nat := 0
  column : Nat := 0

namespace Cursor

def ahead (c : Cursor) (distance : Nat) : Option Char := c.rest[distance]?

def next (c : Cursor) : Option Char := c.rest.head?

def sees (c : Cursor) (x : Char) : Bool := c.next == some x

/-- Whether a blank, a line break or the end stands at a distance. -/
def endsAt (c : Cursor) (distance : Nat) : Bool :=
  match c.ahead distance with
  | some x => isSpaceOrBreak x
  | none => true

def atLineEnd (c : Cursor) : Bool :=
  match c.next with
  | some x => isBreak x
  | none => true

/-- Goes past characters that are no line breaks. -/
def advance (c : Cursor) (count : Nat) : Cursor :=
  { c with
    rest := c.rest.drop count
    index := c.index + count
    column := c.column + count }

def skipWhile (p : Char → Bool) (c : Cursor) : Cursor := c.advance (c.rest.takeWhile p).length

/-- Goes past one line break, if there is one, and says what it stands for: a line feed, or itself
if it is a line or paragraph separator. -/
def readBreak (c : Cursor) : List Char × Cursor :=
  let newLine (count : Nat) : Cursor :=
    { rest := c.rest.drop count, index := c.index + count, line := c.line + 1, column := 0 }
  match c.rest with
  | '\r' :: '\n' :: _ => (['\n'], newLine 2)
  | x :: _ =>
    if !isBreak x then ([], c)
    else if x == '\u2028' || x == '\u2029' then ([x], newLine 1)
    else (['\n'], newLine 1)
  | [] => ([], c)

/-- Whether three equal marks stand alone at the beginning of a line. -/
def seesMark (c : Cursor) (mark : Char) : Bool :=
  c.column == 0 && c.rest.take 3 == [mark, mark, mark] && c.endsAt 3

def atDocumentMark (c : Cursor) : Bool := c.seesMark '-' || c.seesMark '.'

end Cursor
end Directives.Document.Yaml
