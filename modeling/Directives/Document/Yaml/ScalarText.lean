import Directives.Document.Yaml.Cursor
import Directives.Document.Yaml.Token

/-! The text of scalars. Within a scalar, single line breaks become spaces and further ones stay,
except in literal blocks. -/
namespace Directives.Document.Yaml

/-- The blanks and line breaks between two words. -/
structure Gap where
  blanks : List Char := []
  firstBreak : List Char := []
  moreBreaks : List Char := []
  /-- Whether a line has ended in the gap. -/
  broken : Bool := false

/-- What a gap stands for once a word follows it. -/
def Gap.text (g : Gap) : List Char :=
  if !g.broken then g.blanks
  else if g.firstBreak.head? = some '\n' then
    if g.moreBreaks.isEmpty then [' '] else g.moreBreaks
  else g.firstBreak ++ g.moreBreaks

/-- Reads a gap on. After a line break tabs may not stand to the left of column `margin`. -/
def readGap (margin : Option Nat) : Nat → Gap → Cursor → Except Problem (Gap × Cursor)
  | 0, gap, c => .ok (gap, c)
  | fuel + 1, gap, c =>
    match c.next with
    | none => .ok (gap, c)
    | some x =>
      if isBlank x then
        let early := match margin with
          | some column => decide (c.column < column)
          | none => false
        if gap.broken && early && x == '\t' then
          .error (.scan "found a tab character that violates indentation")
        else if gap.broken then readGap margin fuel gap (c.advance 1)
        else readGap margin fuel { gap with blanks := gap.blanks ++ [x] } (c.advance 1)
      else if isBreak x then
        let (mark, c) := c.readBreak
        if gap.broken then
          readGap margin fuel { gap with moreBreaks := gap.moreBreaks ++ mark } c
        else readGap margin fuel { gap with blanks := [], firstBreak := mark, broken := true } c
      else .ok (gap, c)

def isFlowIndicator (c : Char) : Bool :=
  c == ',' || c == '[' || c == ']' || c == '{' || c == '}'

/-- The characters up to a blank or to an indicator that ends a plain scalar. -/
def plainWord (inFlow : Bool) : List Char → Except Problem (List Char)
  | [] => .ok []
  | c :: rest =>
    if isSpaceOrBreak c then .ok []
    else
      let after := rest.head?
      let colonEnds := match after with
        | none => true
        | some x => isSpaceOrBreak x
      let colonMisplaced := match after with
        | none => false
        | some x => isFlowIndicator x || x == '?'
      if inFlow && c == ':' && colonMisplaced then .error (.scan "found unexpected ':'")
      else if (c == ':' && colonEnds) || (inFlow && isFlowIndicator c) then .ok []
      else (plainWord inFlow rest).map (c :: ·)

/-- A scalar as read, where it ended, and whether a line had ended just before. -/
structure ReadScalar where
  text : List Char
  cursor : Cursor
  broken : Bool := false

/-- Reads a plain scalar whose further lines start at column `margin` or behind it. -/
def readPlain (inFlow : Bool) (margin : Nat) :
    Nat → List Char → Gap → Cursor → Except Problem ReadScalar
  | 0, text, gap, c => .ok ⟨text, c, gap.broken⟩
  | fuel + 1, text, gap, c => do
    if c.atDocumentMark || c.sees '#' then return ⟨text, c, gap.broken⟩
    let word ← plainWord inFlow c.rest
    let text := if word.isEmpty then text else text ++ gap.text ++ word
    let gap := if word.isEmpty then gap else {}
    let c := c.advance word.length
    match c.next with
    | none => return ⟨text, c, gap.broken⟩
    | some x =>
      if !isSpaceOrBreak x then return ⟨text, c, gap.broken⟩
      let (gap, c) ← readGap (some margin) (c.rest.length + 1) gap c
      if !inFlow && c.column < margin then return ⟨text, c, gap.broken⟩
      readPlain inFlow margin fuel text gap c

def hexValue? (c : Char) : Option Nat :=
  if c.isDigit then some (c.toNat - '0'.toNat)
  else if 'a' ≤ c ∧ c ≤ 'f' then some (c.toNat - 'a'.toNat + 10)
  else if 'A' ≤ c ∧ c ≤ 'F' then some (c.toNat - 'A'.toNat + 10)
  else none

def hexNumber? (digits : List Char) (count : Nat) : Option Nat :=
  if digits.length < count then none
  else (digits.take count).foldlM (fun n c => (hexValue? c).map (n * 16 + ·)) 0

def shortEscape? (c : Char) : Option Char :=
  match c with
  | '0' => some '\x00'
  | 'a' => some '\x07'
  | 'b' => some '\x08'
  | 't' | '\t' => some '\t'
  | 'n' => some '\n'
  | 'v' => some '\x0b'
  | 'f' => some '\x0c'
  | 'r' => some '\r'
  | 'e' => some '\x1b'
  | ' ' => some ' '
  | '"' => some '"'
  | '/' => some '/'
  | '\\' => some '\\'
  | 'N' => some '\u0085'
  | '_' => some '\u00a0'
  | 'L' => some '\u2028'
  | 'P' => some '\u2029'
  | _ => none

def codeLength? (c : Char) : Option Nat :=
  match c with
  | 'x' => some 2
  | 'u' => some 4
  | 'U' => some 8
  | _ => none

/-- The character behind a backslash, and how many characters name it. -/
def readEscape (rest : List Char) : Except Problem (Char × Nat) :=
  match rest with
  | [] => .error (.scan "found unknown escape character")
  | c :: digits =>
    match shortEscape? c, codeLength? c with
    | some x, _ => .ok (x, 1)
    | none, none => .error (.scan "found unknown escape character")
    | none, some count =>
      match hexNumber? digits count with
      | none => .error (.scan "did not find expected hexdecimal number")
      | some code =>
        if (0xD800 ≤ code ∧ code ≤ 0xDFFF) ∨ 0x10FFFF < code then
          .error (.scan "found invalid Unicode character escape code")
        else .ok (Char.ofNat code, count + 1)

/-- The characters up to a blank, a line break or the closing quote. -/
structure QuotedWord where
  text : List Char := []
  cursor : Cursor
  /-- Whether an escaped line break ended the word. -/
  escaped : Bool := false

def QuotedWord.after (c : Char) (w : QuotedWord) : QuotedWord := { w with text := c :: w.text }

def readQuotedWord (single : Bool) : Nat → Cursor → Except Problem QuotedWord
  | 0, c => .ok { cursor := c }
  | fuel + 1, c =>
    match c.rest with
    | [] => .ok { cursor := c }
    | x :: rest =>
      if isSpaceOrBreak x then .ok { cursor := c }
      else if single then
        if x ≠ '\'' then (readQuotedWord single fuel (c.advance 1)).map (·.after x)
        else if rest.head? = some '\'' then
          (readQuotedWord single fuel (c.advance 2)).map (·.after '\'')
        else .ok { cursor := c }
      else if x = '"' then .ok { cursor := c }
      else if x = '\\' then
        if (rest.head?.map isBreak).getD false then
          .ok { cursor := (c.advance 1).readBreak.2, escaped := true }
        else do
          let (e, count) ← readEscape rest
          (readQuotedWord single fuel (c.advance (count + 1))).map (·.after e)
      else (readQuotedWord single fuel (c.advance 1)).map (·.after x)

/-- Reads a quoted scalar behind its opening quote, to behind the closing one. -/
def readQuoted (single : Bool) : Nat → List Char → Cursor → Except Problem ReadScalar
  | 0, _, _ => .error (.scan "found unexpected end of stream")
  | fuel + 1, text, c => do
    if c.atDocumentMark then throw (.scan "found unexpected document indicator")
    if c.next.isNone then throw (.scan "found unexpected end of stream")
    let word ← readQuotedWord single (c.rest.length + 1) c
    let text := text ++ word.text
    let c := word.cursor
    if c.sees (if single then '\'' else '"') then return ⟨text, c.advance 1, false⟩
    let (gap, c) ← readGap none (c.rest.length + 1) { broken := word.escaped } c
    readQuoted single fuel (text ++ gap.text) c

inductive Chomping
  | strip
  | clip
  | keep
  deriving DecidableEq

/-- The signs behind the mark of a block: chomping and indentation, in either order. -/
def readBlockHeader (c : Cursor) : Except Problem (Chomping × Option Nat × Cursor) :=
  let chomping? (c : Cursor) : Option Chomping :=
    if c.sees '+' then some .keep else if c.sees '-' then some .strip else none
  let digit? (c : Cursor) : Option Nat :=
    (c.next.filter Char.isDigit).map fun d => d.toNat - '0'.toNat
  let zero : Except Problem (Chomping × Option Nat × Cursor) :=
    .error (.scan "found an indentation indicator equal to 0")
  match chomping? c, digit? c with
  | some chomping, _ =>
    match digit? (c.advance 1) with
    | some 0 => zero
    | some n => .ok (chomping, some n, c.advance 2)
    | none => .ok (chomping, none, c.advance 1)
  | none, some 0 => zero
  | none, some n =>
    match chomping? (c.advance 1) with
    | some chomping => .ok (chomping, some n, c.advance 2)
    | none => .ok (.clip, some n, c.advance 1)
  | none, none => .ok (.clip, none, c)

/-- Reads line breaks and the indentation of the next line. Without a known indentation, the
widest one that occurs is found. -/
def readBlockBreaks (indent : Option Nat) :
    Nat → Nat → List Char → Cursor → Except Problem (Nat × List Char × Cursor)
  | 0, widest, breaks, c => .ok (widest, breaks, c)
  | fuel + 1, widest, breaks, c =>
    let spaces := (c.rest.takeWhile (· == ' ')).length
    let c := c.advance (match indent with
      | some n => min spaces (n - c.column)
      | none => spaces)
    let widest := max widest c.column
    let inside := match indent with
      | some n => decide (c.column < n)
      | none => true
    if inside && c.sees '\t' then
      .error (.scan "found a tab character where an indentation space is expected")
    else if c.next.isSome && c.atLineEnd then
      let (mark, c) := c.readBreak
      readBlockBreaks indent fuel widest (breaks ++ mark) c
    else .ok (widest, breaks, c)

structure BlockText where
  text : List Char := []
  lastBreak : List Char := []
  moreBreaks : List Char := []
  afterBlank : Bool := false

def readBlockLines (literal : Bool) (indent : Nat) :
    Nat → BlockText → Cursor → Except Problem (BlockText × Cursor)
  | 0, b, c => .ok (b, c)
  | fuel + 1, b, c =>
    match c.next with
    | none => .ok (b, c)
    | some x =>
      if c.column ≠ indent then .ok (b, c)
      else
        let blank := isBlank x
        let folds := !literal && b.lastBreak.head? = some '\n' && !b.afterBlank && !blank
        let joint := if folds then (if b.moreBreaks.isEmpty then [' '] else []) else b.lastBreak
        let line := c.rest.takeWhile (!isBreak ·)
        let (mark, c) := (c.advance line.length).readBreak
        match readBlockBreaks (some indent) (c.rest.length + 1) 0 [] c with
        | .error problem => .error problem
        | .ok (_, breaks, c) =>
          readBlockLines literal indent fuel
            { text := b.text ++ joint ++ b.moreBreaks ++ line
              lastBreak := mark
              moreBreaks := breaks
              afterBlank := blank } c

/-- Reads a block scalar behind its mark. `outer` is the indentation of the block around it. -/
def readBlock (literal : Bool) (outer : Int) (c : Cursor) : Except Problem ReadScalar := do
  let (chomping, increment, c) ← readBlockHeader c
  let c := c.skipWhile isBlank
  let c := if c.sees '#' then c.skipWhile (!isBreak ·) else c
  if !c.atLineEnd then throw (.scan "did not find expected comment or line break")
  let c := c.readBreak.2
  let known := increment.map fun n => if 0 ≤ outer then outer.toNat + n else n
  let (widest, breaks, c) ← readBlockBreaks known (c.rest.length + 1) 0 [] c
  let indent := known.getD (max widest (max 1 (outer + 1).toNat))
  let (b, c) ← readBlockLines literal indent (c.rest.length + 1) { moreBreaks := breaks } c
  let text := b.text ++ (if chomping = .strip then [] else b.lastBreak) ++
    (if chomping = .keep then b.moreBreaks else [])
  return ⟨text, c, true⟩

end Directives.Document.Yaml
