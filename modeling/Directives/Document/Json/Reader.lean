import Directives.Document.Json.Token

/-! JSON texts as documents. The containers that are open stand on a stack, which is never deeper
than a fixed limit. -/
namespace Directives.Document.Json

/-- A container that is still open, its members in reverse. -/
inductive Frame
  | list (items : List Document)
  | object (entries : List (String × Document))
  /-- Behind a key and its colon. -/
  | entry (entries : List (String × Document)) (key : String)

inductive Expected
  /-- A value; `first` if the list may also close. -/
  | value (first : Bool)
  /-- A key; `first` if the object may also close. -/
  | key (first : Bool)
  | colon (key : String)
  /-- A comma or the end of the innermost container; the end of the text if none is open. -/
  | separator

structure Partial where
  expected : Expected := .value false
  stack : List Frame := []
  result : Option Document := none

def maxDepth : Nat := 127

def Partial.complete (stack : List Frame) (d : Document) : Partial :=
  match stack with
  | .list items :: rest => { expected := .separator, stack := .list (d :: items) :: rest }
  | .entry entries key :: rest =>
    { expected := .separator, stack := .object ((key, d) :: entries) :: rest }
  | stack => { expected := .separator, stack, result := some d }

def Partial.enter (p : Partial) (limit : Nat) (frame : Frame) (expected : Expected) :
    Option Partial :=
  if p.stack.length < limit then some { expected, stack := frame :: p.stack } else none

def Partial.take (limit : Nat) (p : Partial) (token : Token) : Option Partial :=
  match p.expected, token with
  | .value _, .scalar d => some (.complete p.stack d)
  | .value _, .text s => some (.complete p.stack (.text s))
  | .value _, .openList => p.enter limit (.list []) (.value true)
  | .value _, .openObject => p.enter limit (.object []) (.key true)
  | .value true, .closeList | .separator, .closeList =>
    match p.stack with
    | .list items :: rest => some (.complete rest (.list items.reverse))
    | _ => none
  | .key true, .closeObject | .separator, .closeObject =>
    match p.stack with
    | .object entries :: rest => some (.complete rest (.object entries.reverse))
    | _ => none
  | .key _, .text key => some { p with expected := .colon key }
  | .colon key, .colon =>
    match p.stack with
    | .object entries :: rest =>
      some { expected := .value false, stack := .entry entries key :: rest }
    | _ => none
  | .separator, .comma =>
    match p.stack with
    | .list _ :: _ => some { p with expected := .value false }
    | .object _ :: _ => some { p with expected := .key false }
    | _ => none
  | _, _ => none

/-- The document that tokens make up, if they make up exactly one with containers nested no deeper
than the limit. -/
def ofTokens (limit : Nat) (tokens : List Token) : Option Document :=
  (tokens.foldlM (Partial.take limit) {}).bind fun p =>
    if p.stack.isEmpty then p.result else none

/-- Reads a JSON text whose containers nest no deeper than the limit. -/
def readWithin (limit : Nat) (text : String) : Option Document :=
  (tokens text).bind (ofTokens limit)

def read (text : String) : Option Document := readWithin maxDepth text

end Directives.Document.Json
