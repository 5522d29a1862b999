import Directives.Tree

/-! Documents as they stand in a file: like configuration trees, but with integers of any kind and
with every entry of an object, repeated keys included. -/
namespace Directives

/-- The content of a document. -/
inductive Document
  | null
  | bool (value : Bool)
  | integer (value : Int)
  | float (value : Binary64)
  | text (value : String)
  | list (items : List Document)
  | object (entries : List (String × Document))
  deriving Inhabited

namespace Document

/-- An integer that fits in sixty-four bits stays one; any other becomes the nearest float. -/
def number (i : Int) : Tree :=
  if -9223372036854775808 ≤ i ∧ i ≤ 9223372036854775807 then .integer (Int64.ofInt i)
  else .float (.ofInt i)

mutual

/-- The configuration tree of a document; of entries with one key the last value counts. -/
def toTree : Document → Tree
  | null => .null
  | bool b => .bool b
  | integer i => number i
  | float x => .float x
  | text s => .text s
  | list items => .sequence (treesOf items)
  | object entries => .mapping (Tree.ofEntries (fieldsOf entries))
termination_by structural d => d

def treesOf : List Document → List Tree
  | [] => []
  | d :: rest => toTree d :: treesOf rest
termination_by structural ds => ds

/-- The trees of entries, repeated keys included. -/
def fieldsOf : List (String × Document) → List (String × Tree)
  | [] => []
  | (key, d) :: rest => (key, toTree d) :: fieldsOf rest
termination_by structural es => es

end

def ofDuration (d : Duration) : Document :=
  .object [("secs", .integer d.seconds), ("nanos", .integer d.nanos)]

mutual

def ofTree : Tree → Document
  | .null => .null
  | .bool b => .bool b
  | .integer i => .integer i.toInt
  | .float x => .float x
  | .text s => .text s
  | .sequence items => .list (ofItems items)
  | .mapping fields => .object (ofFields fields)
  | .duration d => ofDuration d
termination_by structural t => t

def ofItems : List Tree → List Document
  | [] => []
  | t :: rest => ofTree t :: ofItems rest
termination_by structural ts => ts

def ofFields : List (String × Tree) → List (String × Document)
  | [] => []
  | (key, t) :: rest => (key, ofTree t) :: ofFields rest
termination_by structural fs => fs

end

/-- Keeps entries in the order of their keys' code points; an entry goes before those that are not
smaller. -/
def insertSorted (entry : String × Document) :
    List (String × Document) → List (String × Document)
  | [] => [entry]
  | other :: rest =>
    if other.1 < entry.1 then other :: insertSorted entry rest else entry :: other :: rest

mutual

/-- The normal form in which records are read: objects sorted by key, and null for numbers that
are not finite. -/
def normalize : Document → Document
  | float x => if x.isFinite then .float x else .null
  | list items => .list (normalizeItems items)
  | object entries => .object (normalizeEntries entries)
  | other => other
termination_by structural d => d

def normalizeItems : List Document → List Document
  | [] => []
  | d :: rest => normalize d :: normalizeItems rest
termination_by structural ds => ds

def normalizeEntries : List (String × Document) → List (String × Document)
  | [] => []
  | (key, d) :: rest => insertSorted (key, normalize d) (normalizeEntries rest)
termination_by structural es => es

end

end Document
end Directives
