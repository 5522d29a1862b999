import Directives.Decimal.Layout
import Directives.Document.Yaml.Cursor
import Directives.Document.Yaml.Scalar

/-! Documents as YAML text in block style. A text is written plain where it reads back as itself,
in single quotes where it would read as something else, as a literal block where it has lines, and
in double quotes where none of these will do. -/
namespace Directives.Document.Yaml

/-- Numbers as in JSON, but without a plus sign and with words for what is not finite. -/
def number : Decimal.Layout where
  tie := .toEven
  positionalAbove := some 16
  positionalBelow := some 5
  pointZero := true
  positiveSign := ""
  positiveInfinity := ".inf"
  negativeInfinity := "-.inf"
  notANumber := ".nan"

inductive Style
  | plain
  | single
  | double
  | literal
  deriving DecidableEq, Repr

def isWritable (c : Char) : Bool :=
  let n := c.toNat
  n == 0xA || (0x20 ≤ n && n ≤ 0x7E) ||
    (0xA0 ≤ n && n ≠ 0xFEFF && n ≠ 0xFFFE && n ≠ 0xFFFF)

/-- What matters of a text for the choice of its style. -/
structure Traits where
  multiline : Bool
  plainAllowed : Bool
  singleAllowed : Bool
  literalAllowed : Bool

/-- Whether a mark that would not read back stands in the text. `first` holds at its beginning;
elsewhere `before` is the character in front. -/
def hasIndicator (first : Bool) (before : Char) : List Char → Bool
  | [] => false
  | c :: rest =>
    let spaced := match rest with
      | [] => true
      | x :: _ => isSpaceOrBreak x
    let here :=
      if first then
        "#,[]\x7b\x7d&*!|>'\"%@`".contains c || ((c == '?' || c == ':' || c == '-') && spaced)
      else (c == ':' && spaced) || (c == '#' && isSpaceOrBreak before)
    here || hasIndicator false c rest

/-- Whether a character of one kind is followed at once by one of another. -/
def hasPair (p q : Char → Bool) : List Char → Bool
  | c :: d :: rest => (p c && q d) || hasPair p q (d :: rest)
  | _ => false

def Traits.of (text : List Char) : Traits :=
  let isSpace (c : Char) := c == ' '
  let isEdge (c : Char) := isSpace c || isBreak c
  let multiline := text.any isBreak
  let edge := (text.head?.map isEdge).getD false || (text.getLast?.map isEdge).getD false
  let trailing := (text.getLast?.map isSpace).getD false
  let breakSpace := hasPair isBreak isSpace text
  let unfit := hasPair isSpace isBreak text || text.any fun c => !isWritable c
  let documentMark := text.take 3 == ['-', '-', '-'] || text.take 3 == ['.', '.', '.']
  { multiline
    plainAllowed :=
      !edge && !breakSpace && !unfit && !multiline && !documentMark && !hasIndicator true ' ' text
    singleAllowed := !breakSpace && !unfit
    literalAllowed := !trailing && !unfit && !text.isEmpty }

/-- Whether a text without marks would read back as itself. -/
def readsAsText (s : String) : Bool :=
  match ofPlain s with
  | .ok (.text _) => !isPaddedDigits s.toList
  | _ => false

def styleOf (s : String) : Style :=
  let traits := Traits.of s.toList
  if s.toList.contains '\n' then if traits.literalAllowed then .literal else .double
  else if readsAsText s && traits.plainAllowed then .plain
  else if traits.singleAllowed then .single
  else .double

/-- Longest key on a line of its own kind, in octets. -/
def maxSimpleKey : Nat := 128

def isSimpleKey (s : String) : Bool :=
  !(Traits.of s.toList).multiline && s.utf8ByteSize ≤ maxSimpleKey

/-- What is written so far, in reverse, and what matters for going on. -/
structure Pen where
  written : List Char := []
  column : Nat := 0
  /-- No blank is needed before a mark. -/
  spaced : Bool := true
  /-- Only marks and blanks stand on the line. -/
  fresh : Bool := true

namespace Pen

def put (c : Char) (p : Pen) : Pen :=
  { p with written := c :: p.written, column := p.column + 1 }

def puts (text : List Char) (p : Pen) : Pen :=
  { p with written := text.reverse ++ p.written, column := p.column + text.length }

def putBreak (c : Char) (p : Pen) : Pen := { p with written := c :: p.written, column := 0 }

/-- Goes to a column on a fresh line: on this one if that is still possible. -/
def toColumn (column : Nat) (p : Pen) : Pen :=
  let p := if !p.fresh || column < p.column || (p.column = column && !p.spaced) then
      p.putBreak '\n'
    else p
  { p.puts (List.replicate (column - p.column) ' ') with spaced := true, fresh := true }

/-- Writes a mark, with a blank before it where one is needed. -/
def mark (text : List Char) (needsBlank keepsFresh : Bool) (p : Pen) : Pen :=
  let p := if needsBlank && !p.spaced then p.put ' ' else p
  { p.puts text with spaced := false, fresh := p.fresh && keepsFresh }

end Pen

def writePlain (text : List Char) (p : Pen) : Pen := p.mark text true false

/-- The lines of a text, each at a column. Blank lines stay empty. -/
def writeLines (column : Nat) (escape : Char → List Char) : Bool → List Char → Pen → Pen
  | _, [], p => p
  | broken, c :: rest, p =>
    if isBreak c then writeLines column escape true rest { p.putBreak c with fresh := true }
    else
      let p := if broken then p.toColumn column else p
      writeLines column escape false rest { p.puts (escape c) with fresh := false }

/-- Text in single quotes; a quote is written twice. -/
def writeSingle (column : Nat) (text : List Char) (p : Pen) : Pen :=
  let quote (c : Char) := if c = '\'' then ['\'', '\''] else [c]
  let p := writeLines column quote false text (p.mark ['\''] true false)
  let ended := (text.getLast?.map isBreak).getD false
  (if ended then p.toColumn column else p).mark ['\''] false false

def hexCode (width : Nat) (n : Nat) : List Char :=
  let digits := (Nat.toDigits 16 n).map Char.toUpper
  List.replicate (width - digits.length) '0' ++ digits

def escapeChar (c : Char) : List Char :=
  match c with
  | '\x00' => ['\\', '0']
  | '\x07' => ['\\', 'a']
  | '\x08' => ['\\', 'b']
  | '\t' => ['\\', 't']
  | '\n' => ['\\', 'n']
  | '\x0b' => ['\\', 'v']
  | '\x0c' => ['\\', 'f']
  | '\r' => ['\\', 'r']
  | '\x1b' => ['\\', 'e']
  | '"' => ['\\', '"']
  | '\\' => ['\\', '\\']
  | '\u0085' => ['\\', 'N']
  | '\u2028' => ['\\', 'L']
  | '\u2029' => ['\\', 'P']
  | c =>
    if isWritable c then [c]
    else if c.toNat ≤ 0xFF then '\\' :: 'x' :: hexCode 2 c.toNat
    else if c.toNat ≤ 0xFFFF then '\\' :: 'u' :: hexCode 4 c.toNat
    else '\\' :: 'U' :: hexCode 8 c.toNat

def writeDouble (text : List Char) (p : Pen) : Pen :=
  ((p.mark ['"'] true false).puts (text.flatMap escapeChar)).mark ['"'] false false

/-- The signs behind the mark of a literal block: the indentation where the text begins with a
blank or a break, and what becomes of the breaks at its end. -/
def literalHints (text : List Char) : List Char :=
  let isEdge (c : Char) := c == ' ' || isBreak c
  let indentation := if (text.head?.map isEdge).getD false then ['2'] else []
  let chomping := match text.reverse with
    | [] => ['-']
    | last :: before =>
      if !isBreak last then ['-']
      else match before with
        | [] => ['+']
        | c :: _ => if isBreak c then ['+'] else []
  indentation ++ chomping

def writeLiteral (column : Nat) (text : List Char) (p : Pen) : Pen :=
  let p := p.mark ('|' :: literalHints text) true false
  writeLines column (fun c => [c]) true text
    { p.putBreak '\n' with spaced := true, fresh := true }

def writeText (column : Nat) (s : String) (p : Pen) : Pen :=
  let text := s.toList
  match styleOf s with
  | .plain => writePlain text p
  | .single => writeSingle column text p
  | .double => writeDouble text p
  | .literal => writeLiteral column text p

inductive Position
  | root
  | item
  | entry
  deriving DecidableEq

/-- The columns of a container: further in than what is around it, except a sequence that begins
on a line of its own below its key. -/
def containerColumn (outer : Option Nat) (flush : Bool) : Nat :=
  match outer with
  | none => 0
  | some column => if flush then column else column + 2

def textColumn : Option Nat → Nat
  | none => 2
  | some column => column + 2

mutual

/-- Writes a node inside containers at column `outer`, if there are any. -/
def writeNode (position : Position) (outer : Option Nat) : Document → Pen → Pen
  | null, p => writePlain "null".toList p
  | bool b, p => writePlain (toString b).toList p
  | integer i, p => writePlain (toString i).toList p
  | float x, p => writePlain (Decimal.write number x).toList p
  | text s, p => writeText (textColumn outer) s p
  | list [], p => p.mark ['[', ']'] true false
  | list (d :: rest), p =>
    let column := containerColumn outer (position = .entry && !p.fresh)
    writeItems column rest (writeNode .item (some column) d
      ((p.toColumn column).mark ['-'] true true))
  | object [], p => p.mark ['{', '}'] true false
  | object ((key, d) :: rest), p =>
    let column := containerColumn outer false
    let p := p.toColumn column
    let p :=
      if isSimpleKey key then
        (writeText (column + 2) key p).mark [':'] false false
      else
        ((writeText (column + 2) key (p.mark ['?'] true true)).toColumn column).mark [':']
          true true
    writeEntries column rest (writeNode .entry (some column) d p)
termination_by structural d => d

/-- Writes the items of a sequence behind its first. -/
def writeItems (column : Nat) : List Document → Pen → Pen
  | [], p => p
  | d :: rest, p =>
    writeItems column rest (writeNode .item (some column) d
      ((p.toColumn column).mark ['-'] true true))
termination_by structural ds => ds

/-- Writes the entries of a mapping behind its first. -/
def writeEntries (column : Nat) : List (String × Document) → Pen → Pen
  | [], p => p
  | (key, d) :: rest, p =>
    let p := p.toColumn column
    let p :=
      if isSimpleKey key then
        (writeText (column + 2) key p).mark [':'] false false
      else
        ((writeText (column + 2) key (p.mark ['?'] true true)).toColumn column).mark [':']
          true true
    writeEntries column rest (writeNode .entry (some column) d p)
termination_by structural es => es

end

def toText (d : Document) : String :=
  String.ofList ((writeNode .root none d {}).toColumn 0).written.reverse

end Directives.Document.Yaml
