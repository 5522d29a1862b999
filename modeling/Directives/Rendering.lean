import Directives.Document.Json.Writer
import Directives.Document.Yaml.Writer
import Directives.Tree.Display

/-! Resolved trees as text. Durations are spelled out first, so that they are read as people write
them. -/
namespace Directives

namespace Tree

mutual

/-- The tree with each duration as the text that stands for it. -/
def spellOut : Tree → Tree
  | .duration d => .text d.toText
  | .sequence items => .sequence (spellOutItems items)
  | .mapping fields => .mapping (spellOutFields fields)
  | other => other
termination_by structural t => t

def spellOutItems : List Tree → List Tree
  | [] => []
  | item :: rest => spellOut item :: spellOutItems rest
termination_by structural items => items

def spellOutFields : List (String × Tree) → List (String × Tree)
  | [] => []
  | (key, value) :: rest => (key, spellOut value) :: spellOutFields rest
termination_by structural fields => fields

end

end Tree

inductive Rendering
  | json
  | yaml
  /-- As YAML if it is a container, otherwise as it reads. -/
  | text
  deriving DecidableEq, Repr

namespace Rendering

def ofName? : String → Option Rendering
  | "json" => some .json
  | "yaml" | "yml" => some .yaml
  | "text" => some .text
  | _ => none

/-- The text of a tree, ending with a line break. -/
def render (rendering : Rendering) (t : Tree) : String :=
  let asYaml := Document.Yaml.toText (Document.ofTree t)
  match rendering, t with
  | .json, t => Document.Json.indentedText (Document.ofTree t) ++ "\n"
  | .yaml, _ | .text, .mapping _ | .text, .sequence _ => asYaml
  | .text, scalar => scalar.display ++ "\n"

end Rendering
end Directives
