import Directives.Binary64
import Directives.Duration

/-! Configuration trees: scalars, sequences, and mappings whose keys keep their order. -/
namespace Directives

/-- A configuration value. Texts may hold directives until the tree is resolved; durations arise
only from resolution. -/
inductive Tree
  | null
  | bool (value : Bool)
  | integer (value : Int64)
  | float (value : Binary64)
  | text (value : String)
  | sequence (items : List Tree)
  | mapping (fields : List (String × Tree))
  | duration (value : Duration)
  deriving Inhabited

namespace Tree

/-- Sets a key: a known key keeps its place and a new one goes to the end. -/
def put (key : String) (value : α) : List (String × α) → List (String × α)
  | [] => [(key, value)]
  | (k, v) :: rest => if k = key then (k, value) :: rest else (k, v) :: put key value rest

/-- Sets keys one after the other, so that the last value of a key counts. -/
def ofEntries (entries : List (String × α)) : List (String × α) :=
  entries.foldl (fun fields (key, value) => put key value fields) []

def kindName : Tree → String
  | null => "null"
  | bool _ => "boolean"
  | integer _ => "integer"
  | float _ => "float"
  | text _ => "string"
  | sequence _ => "sequence"
  | mapping _ => "mapping"
  | duration _ => "duration"

/-- Scalars in which resolution never looks for directives. -/
def isOpaque : Tree → Bool
  | text _ | sequence _ | mapping _ => false
  | _ => true

def isNull : Tree → Bool
  | null => true
  | _ => false

def asBool? : Tree → Option Bool
  | bool b => some b
  | _ => none

def asInteger? : Tree → Option Int64
  | integer i => some i
  | _ => none

/-- A number as binary floating point; integers are rounded. -/
def asFloat? : Tree → Option Binary64
  | float x => some x
  | integer i => some (.ofInt i.toInt)
  | _ => none

def asText? : Tree → Option String
  | text s => some s
  | _ => none

def asDuration? : Tree → Option Duration
  | duration d => some d
  | _ => none

def asSequence? : Tree → Option (List Tree)
  | sequence items => some items
  | _ => none

def asMapping? : Tree → Option (List (String × Tree))
  | mapping fields => some fields
  | _ => none

end Tree
end Directives
