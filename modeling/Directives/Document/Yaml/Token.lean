/-! The tokens of a YAML text. -/
namespace Directives.Document.Yaml

/-- How a scalar is written: without marks, or in quotes or as a block. -/
inductive Manner
  | plain
  | marked
  deriving DecidableEq, Repr

/-- A token. Block tokens are not written; they follow from indentation. -/
inductive Token
  | versionDirective (major minor : Nat)
  | tagDirective (handle tagPrefix : String)
  | documentStart
  | documentEnd
  | blockSequenceStart
  | blockMappingStart
  | blockEnd
  | flowSequenceStart
  | flowSequenceEnd
  | flowMappingStart
  | flowMappingEnd
  | blockEntry
  | flowEntry
  | key
  | value
  | alias (name : String)
  | anchor (name : String)
  /-- A tag in two parts; an empty handle stands before a whole tag. -/
  | tag (handle tail : String)
  | scalar (value : String) (manner : Manner)
  | streamEnd
  deriving DecidableEq, Repr

inductive Problem
  | controlCharacter
  | scan (what : String)
  | grammar (what : String)
  | anchors (what : String)
  | content (what : String)
  deriving DecidableEq, Repr

def Problem.message : Problem → String
  | controlCharacter => "control characters are not allowed"
  | scan what | grammar what | anchors what | content what => what

end Directives.Document.Yaml
