import Directives.Document.Yaml.ScalarText

/-! From text to tokens. Indentation opens and closes blocks, and a value mark turns the last
possible key before it into a key, so tokens are also put in before others. -/
namespace Directives.Document.Yaml

/-- Where a key may have begun: the token before which its mark would go, and the place. -/
structure PossibleKey where
  /-- The block around it cannot go on without it being a key. -/
  required : Bool
  position : Nat
  index : Nat
  line : Nat
  column : Nat

/-- The state between two tokens. Possible keys stand innermost first, one for each level of
brackets. -/
structure Lexer where
  cursor : Cursor
  flowLevel : Nat := 0
  indent : Int := -1
  indents : List Int := []
  keyAllowed : Bool := true
  keys : List (Option PossibleKey) := [none]
  tokens : Array Token := #[]

namespace Lexer

def maxKeyLength : Nat := 1024

def emit (token : Token) (l : Lexer) : Lexer := { l with tokens := l.tokens.push token }

def insertAt (position : Nat) (token : Token) (l : Lexer) : Lexer :=
  { l with tokens := l.tokens.insertIdxIfInBounds position token }

def go (count : Nat) (l : Lexer) : Lexer := { l with cursor := l.cursor.advance count }

/-- Gives up the possible key of the present level. -/
def dropKey (l : Lexer) : Except Problem Lexer :=
  match l.keys with
  | some key :: rest =>
    if key.required then .error (.scan "could not find expected ':'")
    else .ok { l with keys := none :: rest }
  | _ => .ok l

def noteKey (l : Lexer) : Except Problem Lexer :=
  if !l.keyAllowed then .ok l
  else do
    let l ← l.dropKey
    let key : PossibleKey :=
      { required := l.flowLevel == 0 && l.indent == l.cursor.column
        position := l.tokens.size
        index := l.cursor.index
        line := l.cursor.line
        column := l.cursor.column }
    return { l with keys := some key :: l.keys.tail }

/-- The possible key of the present level, if it is on this line and not too long. -/
def validKey (l : Lexer) : Except Problem (Option PossibleKey) :=
  match l.keys with
  | some key :: _ =>
    if key.line < l.cursor.line || key.index + maxKeyLength < l.cursor.index then
      if key.required then .error (.scan "could not find expected ':'") else .ok none
    else .ok (some key)
  | _ => .ok none

/-- Opens a block at a column unless one is open there, before the token at `position` or at the
end. -/
def openBlock (column : Nat) (position : Option Nat) (token : Token) (l : Lexer) : Lexer :=
  if l.flowLevel ≠ 0 || (column : Int) ≤ l.indent then l
  else
    let l := { l with indents := l.indent :: l.indents, indent := column }
    match position with
    | some position => l.insertAt position token
    | none => l.emit token

def closeBlocks (column : Int) (l : Lexer) : Lexer :=
  if l.flowLevel ≠ 0 then l
  else
    let rec close (indent : Int) (tokens : Array Token) : List Int → Lexer
      | [] => { l with indent, tokens, indents := [] }
      | outer :: rest =>
        if column < indent then close outer (tokens.push .blockEnd) rest
        else { l with indent, tokens, indents := outer :: rest }
    close l.indent l.tokens l.indents

/-- Goes past blanks, comments and line breaks to the next token. A tab may not stand where a
block could begin. -/
def skipToToken : Nat → Lexer → Lexer
  | 0, l => l
  | fuel + 1, l =>
    let c := l.cursor
    let c := if c.index == 0 && c.sees orderMark then c.advance 1 else c
    let tabs := l.flowLevel ≠ 0 || !l.keyAllowed
    let c := c.skipWhile fun x => x == ' ' || (tabs && x == '\t')
    let c := if c.sees '#' then c.skipWhile (!isBreak ·) else c
    if c.next.isSome && c.atLineEnd then
      skipToToken fuel
        { l with cursor := c.readBreak.2, keyAllowed := l.keyAllowed || l.flowLevel == 0 }
    else { l with cursor := c }

def endDirective (c : Cursor) : Except Problem Cursor :=
  let c := c.skipWhile isBlank
  let c := if c.sees '#' then c.skipWhile (!isBreak ·) else c
  if c.atLineEnd then .ok c.readBreak.2
  else .error (.scan "did not find expected comment or line break")

/-- A part of a version: one to nine digits. -/
def readVersionPart (c : Cursor) : Except Problem (Nat × Cursor) :=
  let digits := c.rest.takeWhile Char.isDigit
  if digits.isEmpty then .error (.scan "did not find expected version number")
  else if 9 < digits.length then .error (.scan "found extremely long version number")
  else .ok (digits.foldl (fun n d => n * 10 + (d.toNat - '0'.toNat)) 0, c.advance digits.length)

/-- A tag handle: `!`, or a word between two such marks. In a directive nothing else will do. -/
def readTagHandle (inDirective : Bool) (c : Cursor) : Except Problem (List Char × Cursor) :=
  if !c.sees '!' then .error (.scan "did not find expected '!'")
  else
    let word := (c.advance 1).rest.takeWhile isWordChar
    let c := c.advance (word.length + 1)
    if c.sees '!' then .ok ('!' :: word ++ ['!'], c.advance 1)
    else if inDirective && !word.isEmpty then .error (.scan "did not find expected '!'")
    else .ok ('!' :: word, c)

/-- Two hexadecimal digits behind a percent sign. -/
def readOctet (c : Cursor) : Except Problem (Nat × Cursor) :=
  if !c.sees '%' then .error (.scan "did not find URI escaped octet")
  else
    match hexNumber? (c.rest.drop 1) 2 with
    | some n => .ok (n, c.advance 3)
    | none => .error (.scan "did not find URI escaped octet")

def readTailOctets : Nat → Nat → Cursor → Except Problem (Nat × Cursor)
  | 0, code, c => .ok (code, c)
  | count + 1, code, c => do
    let (octet, c) ← readOctet c
    if octet / 64 ≠ 2 then throw (.scan "found an incorrect trailing UTF-8 octet")
    readTailOctets count (code * 64 + octet % 64) c

def readEscapedChar (c : Cursor) : Except Problem (Char × Cursor) := do
  let (first, c) ← readOctet c
  let (count, code) ←
    if first < 0x80 then pure (0, first)
    else if first / 32 = 6 then pure (1, first % 32)
    else if first / 16 = 14 then pure (2, first % 16)
    else if first / 8 = 30 then pure (3, first % 8)
    else throw (.scan "found an incorrect leading UTF-8 octet")
  let (code, c) ← readTailOctets count code c
  return (Char.ofNat code, c)

def isAddressChar (verbatim : Bool) (c : Char) : Bool :=
  isWordChar c || ";/?:@&=+$.%!~*'()".contains c || (verbatim && ",[]".contains c)

def readAddress (verbatim : Bool) : Nat → List Char → Cursor → Except Problem (List Char × Cursor)
  | 0, text, c => .ok (text, c)
  | fuel + 1, text, c =>
    match c.next with
    | none => .ok (text, c)
    | some x =>
      if !isAddressChar verbatim x then .ok (text, c)
      else if x == '%' then do
        let (e, c) ← readEscapedChar c
        readAddress verbatim fuel (text ++ [e]) c
      else readAddress verbatim fuel (text ++ [x]) (c.advance 1)

def readSomeAddress (verbatim : Bool) (c : Cursor) : Except Problem (List Char × Cursor) := do
  let (text, c) ← readAddress verbatim (c.rest.length + 1) [] c
  if text.isEmpty then throw (.scan "did not find expected tag URI")
  return (text, c)

/-- A directive: the version of the text, or what a tag handle stands for. -/
def readDirective (l : Lexer) : Except Problem Lexer := do
  let c := l.cursor.advance 1
  let name := c.rest.takeWhile isWordChar
  let c := c.advance name.length
  if name.isEmpty then throw (.scan "could not find expected directive name")
  if !c.endsAt 0 then throw (.scan "found unexpected non-alphabetical character")
  match String.ofList name with
  | "YAML" =>
    let (major, c) ← readVersionPart (c.skipWhile isBlank)
    if !c.sees '.' then throw (.scan "did not find expected digit or '.' character")
    let (minor, c) ← readVersionPart (c.advance 1)
    let c ← endDirective c
    return { l with cursor := c }.emit (.versionDirective major minor)
  | "TAG" =>
    let (handle, c) ← readTagHandle true (c.skipWhile isBlank)
    if (c.next.map isBlank).getD false = false then
      throw (.scan "did not find expected whitespace")
    let (tagPrefix, c) ← readSomeAddress true (c.skipWhile isBlank)
    if !c.endsAt 0 then throw (.scan "did not find expected whitespace or line break")
    let c ← endDirective c
    return { l with cursor := c }.emit
      (.tagDirective (String.ofList handle) (String.ofList tagPrefix))
  | _ => throw (.scan "found unknown directive name")

def readAnchorName (c : Cursor) : Except Problem (String × Cursor) :=
  let name := c.rest.takeWhile isWordChar
  let c := c.advance name.length
  let ends := c.endsAt 0 || match c.next with
    | some x => "?:,]\x7d%@`".contains x
    | none => true
  if name.isEmpty || !ends then
    .error (.scan "did not find expected alphabetic or numeric character")
  else .ok (String.ofList name, c)

/-- A tag: an address in angle brackets, or a handle and the rest of an address. -/
def readTag (inFlow : Bool) (c : Cursor) : Except Problem (Token × Cursor) := do
  let (token, c) ←
    if c.ahead 1 = some '<' then do
      let (address, c) ← readSomeAddress true (c.advance 2)
      if !c.sees '>' then throw (.scan "did not find the expected '>'")
      pure (Token.tag "" (String.ofList address), c.advance 1)
    else do
      let (handle, c) ← readTagHandle false c
      if 1 < handle.length && handle.getLast? = some '!' then do
        let (tail, c) ← readSomeAddress false c
        pure (Token.tag (String.ofList handle) (String.ofList tail), c)
      else do
        let (tail, c) ← readAddress false (c.rest.length + 1) handle.tail c
        if tail.isEmpty then pure (Token.tag "" "!", c)
        else pure (Token.tag "!" (String.ofList tail), c)
  if !(inFlow && c.sees ',') && !c.endsAt 0 then
    throw (.scan "did not find expected whitespace or line break")
  return (token, c)

/-- Closes all blocks and gives up all keys, at the beginning of a line that is no content. -/
def leaveContent (l : Lexer) : Except Problem Lexer := do
  let l ← (l.closeBlocks (-1)).dropKey
  return { l with keyAllowed := false }

/-- A value mark. A possible key before it becomes one. -/
def readValue (l : Lexer) : Except Problem Lexer := do
  match ← l.validKey with
  | some key =>
    let l := (l.insertAt key.position .key).openBlock key.column (some key.position)
      .blockMappingStart
    return ({ l with keys := none :: l.keys.tail, keyAllowed := false }.go 1).emit .value
  | none =>
    let l := { l with keys := none :: l.keys.tail }
    if l.flowLevel ≠ 0 then return ({ l with keyAllowed := false }.go 1).emit .value
    if !l.keyAllowed then throw (.scan "mapping values are not allowed in this context")
    let l := l.openBlock l.cursor.column none .blockMappingStart
    return ({ l with keyAllowed := true }.go 1).emit .value

def readBlockMark (start mark : Token) (problem : String) (l : Lexer) : Except Problem Lexer := do
  if l.flowLevel = 0 && !l.keyAllowed then throw (.scan problem)
  let l ← (l.openBlock l.cursor.column none start).dropKey
  return ({ l with keyAllowed := true }.go 1).emit mark

def openFlow (token : Token) (l : Lexer) : Except Problem Lexer := do
  let l ← l.noteKey
  return ({ l with
    flowLevel := l.flowLevel + 1
    keys := none :: l.keys
    keyAllowed := true }.go 1).emit token

def closeFlow (token : Token) (l : Lexer) : Except Problem Lexer := do
  let l ← l.dropKey
  return ({ l with
    flowLevel := l.flowLevel - 1
    keys := if l.flowLevel = 0 then l.keys else l.keys.tail
    keyAllowed := false }.go 1).emit token

/-- A scalar that may be a key. -/
def readScalar (manner : Manner) (read : Lexer → Except Problem ReadScalar) (l : Lexer) :
    Except Problem Lexer := do
  let l ← l.noteKey
  let s ← read l
  return { l with cursor := s.cursor, keyAllowed := s.broken }.emit
    (.scalar (String.ofList s.text) manner)

/-- A block scalar, which is never a key. -/
def readBlockScalar (literal : Bool) (l : Lexer) : Except Problem Lexer := do
  let l ← l.dropKey
  let s ← readBlock literal l.indent (l.cursor.advance 1)
  return { l with cursor := s.cursor, keyAllowed := true }.emit
    (.scalar (String.ofList s.text) .marked)

/-- Reads the token that begins here, `first` being its first character. -/
def readToken (first : Char) (l : Lexer) : Except Problem Lexer := do
  let c := l.cursor
  let inFlow := l.flowLevel ≠ 0
  let fuel := c.rest.length + 1
  let plain := readScalar .plain fun l =>
    readPlain inFlow (l.indent + 1).toNat fuel [] {} l.cursor
  let named (token : String → Token) : Except Problem Lexer := do
    let l ← l.noteKey
    let (name, c) ← readAnchorName (l.cursor.advance 1)
    return { l with cursor := c, keyAllowed := false }.emit (token name)
  if c.column = 0 && first = '%' then
    readDirective (← l.leaveContent)
  else if c.seesMark '-' then
    return ((← l.leaveContent).go 3).emit .documentStart
  else if c.seesMark '.' then
    return ((← l.leaveContent).go 3).emit .documentEnd
  else
    match first with
    | '[' => l.openFlow .flowSequenceStart
    | '{' => l.openFlow .flowMappingStart
    | ']' => l.closeFlow .flowSequenceEnd
    | '}' => l.closeFlow .flowMappingEnd
    | ',' =>
      let l ← l.dropKey
      return ({ l with keyAllowed := true }.go 1).emit .flowEntry
    | '*' => named .alias
    | '&' => named .anchor
    | '!' =>
      let l ← l.noteKey
      let (token, c) ← readTag inFlow l.cursor
      return { l with cursor := c, keyAllowed := false }.emit token
    | '\'' => l.readScalar .marked fun l => readQuoted true fuel [] (l.cursor.advance 1)
    | '"' => l.readScalar .marked fun l => readQuoted false fuel [] (l.cursor.advance 1)
    | '-' =>
      if c.endsAt 1 then
        l.readBlockMark .blockSequenceStart .blockEntry
          "block sequence entries are not allowed in this context"
      else plain l
    | '?' =>
      if inFlow then
        let l ← l.dropKey
        return ({ l with keyAllowed := false }.go 1).emit .key
      else if c.endsAt 1 then
        l.readBlockMark .blockMappingStart .key "mapping keys are not allowed in this context"
      else plain l
    | ':' => if inFlow || c.endsAt 1 then l.readValue else plain l
    | '|' =>
      if inFlow then throw (.scan "found character that cannot start any token")
      else l.readBlockScalar true
    | '>' =>
      if inFlow then throw (.scan "found character that cannot start any token")
      else l.readBlockScalar false
    | first =>
      if isSpaceOrBreak first || "#%@`".contains first then
        throw (.scan "found character that cannot start any token")
      else plain l

def readAll : Nat → Lexer → Except Problem (Array Token)
  | 0, _ => .error (.scan "found unexpected end of stream")
  | fuel + 1, l => do
    let l := skipToToken (l.cursor.rest.length + 1) l
    let l := l.closeBlocks l.cursor.column
    match l.cursor.next with
    | none => return ((← l.leaveContent).emit .streamEnd).tokens
    | some first => readAll fuel (← readToken first l)

end Lexer

/-- The tokens of a text. A byte order mark at its beginning is no part of it. -/
def tokensOf (text : String) : Except Problem (List Token) := do
  if !text.toList.all isAllowed then throw .controlCharacter
  let chars := if text.toList.head? = some orderMark then text.toList.tail else text.toList
  let tokens ← Lexer.readAll (chars.length + 2) { cursor := { rest := chars } }
  return tokens.toList

end Directives.Document.Yaml
