import Directives.Tree
import Directives.Fault

/-! Finding a value by its place in a tree. -/
namespace Directives.Tree

def child? : Tree → Step → Option Tree
  | mapping fields, .key name => fields.lookup name
  | sequence items, .index position => items[position]?
  | _, _ => none

def at? (t : Tree) (location : Location) : Option Tree := location.foldlM child? t

def pathNotFound (path : String) : Fault :=
  (Fault.parse s!"Path not found: {path}").withHelp
    s!"Check that '{path}' exists in the configuration"

/-- The value that a path names; the empty path names the whole tree. -/
def find (t : Tree) (path : String) : Except Fault Tree :=
  if path.isEmpty then .ok t
  else
    match Location.ofText path with
    | .error malformed => .error (.parse malformed.message)
    | .ok location =>
      match t.at? location with
      | some value => .ok value
      | none => .error (pathNotFound path)

end Directives.Tree
