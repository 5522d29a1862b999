import Directives.Document.Yaml.Tokens

/-! The nodes of a YAML document, made from its tokens. Anchors and aliases are kept as they are
written; tags are complete. -/
namespace Directives.Document.Yaml

/-- What stands in front of a node's content. -/
structure Properties where
  anchor : Option String := none
  tag : Option String := none
  deriving DecidableEq, Repr

inductive Node
  | alias (name : String)
  | scalar (properties : Properties) (value : String) (manner : Manner)
  | sequence (properties : Properties) (items : List Node)
  | mapping (properties : Properties) (entries : List (Node × Node))
  deriving Inhabited

namespace Node

def missing : Node := .scalar {} "" .plain

/-- What the tag handles stand for. -/
abbrev Handles := List (String × String)

def standardHandles : Handles := [("!", "!"), ("!!", "tag:yaml.org,2002:")]

abbrev Read := StateT (List Token) (Except Problem)

private def fail {α : Type} (what : String) : Read α := throw (.grammar what)

/-- The next token; the last one stays for ever. -/
private def peek : Read Token := return (← get).headD .streamEnd

private def skip : Read Unit := modify List.tail

def completeTag (handles : Handles) (handle tail : String) : Read String :=
  if handle.isEmpty then return tail
  else
    match handles.lookup handle with
    | some start => return start ++ tail
    | none => fail "found undefined tag handle"

/-- An anchor and a tag, in either order. -/
def readProperties (handles : Handles) : Read Properties := do
  match ← peek with
  | .anchor name =>
    skip
    match ← peek with
    | .tag handle tail =>
      skip
      return { anchor := some name, tag := some (← completeTag handles handle tail) }
    | _ => return { anchor := some name }
  | .tag handle tail =>
    skip
    match ← peek with
    | .anchor name =>
      skip
      return { anchor := some name, tag := some (← completeTag handles handle tail) }
    | _ => return { tag := some (← completeTag handles handle tail) }
  | _ => return {}

inductive Place
  /-- Inside brackets. -/
  | flow
  | block
  /-- Inside a block mapping, where entries of a sequence need no indentation. -/
  | blockMapping
  deriving DecidableEq

/-- What is being read: a node, or the rest of a container. -/
inductive Goal
  | node (place : Place)
  | blockSequence
  | plainSequence
  | blockMapping
  | flowSequence (first : Bool)
  | flowMapping (first : Bool)

inductive Found
  | node (n : Node)
  | items (ns : List Node)
  | entries (es : List (Node × Node))

def Found.asNode : Found → Node
  | .node n => n
  | _ => missing

def Found.asItems : Found → List Node
  | .items ns => ns
  | _ => []

def Found.asEntries : Found → List (Node × Node)
  | .entries es => es
  | _ => []

def endsBlockEntry : Token → Bool
  | .blockEntry | .blockEnd => true
  | _ => false

/-- Whether a key or value of a block mapping is left out before this token. -/
def endsBlockPart : Token → Bool
  | .key | .value | .blockEnd => true
  | _ => false

def endsFlowValue (close : Token) (t : Token) : Bool := t = .flowEntry || t = close

/-- A value mark and the value behind it, either of which may be left out. -/
def readValue (absent : Token → Bool) (node : Read Node) : Read Node := do
  if (← peek) = .value then
    skip
    if absent (← peek) then return missing else node
  else return missing

def readGoal (handles : Handles) : Nat → Goal → Read Found
  | 0, _ => fail "did not find expected node content"
  | fuel + 1, goal => do
    let node (place : Place) : Read Node := return (← readGoal handles fuel (.node place)).asNode
    let items (goal : Goal) : Read (List Node) := return (← readGoal handles fuel goal).asItems
    let entries (goal : Goal) : Read (List (Node × Node)) :=
      return (← readGoal handles fuel goal).asEntries
    match goal with
    | .node place =>
      if let .alias name := ← peek then
        skip
        return .node (.alias name)
      let properties ← readProperties handles
      let sequence (goal : Goal) : Read Found := return .node (.sequence properties (← items goal))
      let mapping (goal : Goal) : Read Found := return .node (.mapping properties (← entries goal))
      match ← peek with
      | .scalar value manner =>
        skip
        let tag := properties.tag.filter (· ≠ "!")
        return .node (.scalar { properties with tag } value manner)
      | .flowSequenceStart =>
        skip
        sequence (.flowSequence true)
      | .flowMappingStart =>
        skip
        mapping (.flowMapping true)
      | token =>
        if token = .blockEntry && place = .blockMapping then sequence .plainSequence
        else if token = .blockSequenceStart && place ≠ .flow then
          skip
          sequence .blockSequence
        else if token = .blockMappingStart && place ≠ .flow then
          skip
          mapping .blockMapping
        else if properties.anchor.isSome || properties.tag.isSome then
          return .node (.scalar properties "" .plain)
        else fail "did not find expected node content"
    | .blockSequence =>
      match ← peek with
      | .blockEnd =>
        skip
        return .items []
      | .blockEntry =>
        skip
        let n ← if endsBlockEntry (← peek) then pure missing else node .block
        return .items (n :: (← items .blockSequence))
      | _ => fail "did not find expected '-' indicator"
    | .plainSequence =>
      match ← peek with
      | .blockEntry =>
        skip
        let token ← peek
        let n ← if endsBlockEntry token || endsBlockPart token then pure missing else node .block
        return .items (n :: (← items .plainSequence))
      | _ => return .items []
    | .blockMapping =>
      match ← peek with
      | .blockEnd =>
        skip
        return .entries []
      | .key =>
        skip
        let key ← if endsBlockPart (← peek) then pure missing else node .blockMapping
        let value ← readValue endsBlockPart (node .blockMapping)
        return .entries ((key, value) :: (← entries .blockMapping))
      | _ => fail "did not find expected key"
    | .flowSequence first =>
      if !first && (← peek) ≠ .flowSequenceEnd then
        if (← peek) = .flowEntry then skip else fail "did not find expected ',' or ']'"
      match ← peek with
      | .flowSequenceEnd =>
        skip
        return .items []
      | .key =>
        skip
        let token ← peek
        -- a key that is left out takes the mark behind it along
        let key ← if token = .value || endsFlowValue .flowSequenceEnd token then do
            skip
            pure missing
          else node .flow
        let value ← readValue (endsFlowValue .flowSequenceEnd) (node .flow)
        return .items (.mapping {} [(key, value)] :: (← items (.flowSequence false)))
      | _ =>
        let n ← node .flow
        return .items (n :: (← items (.flowSequence false)))
    | .flowMapping first =>
      if !first && (← peek) ≠ .flowMappingEnd then
        if (← peek) = .flowEntry then skip else fail "did not find expected ',' or '\x7d'"
      match ← peek with
      | .flowMappingEnd =>
        skip
        return .entries []
      | .key =>
        skip
        let token ← peek
        let key ← if token = .value || endsFlowValue .flowMappingEnd token then pure missing
          else node .flow
        let value ← readValue (endsFlowValue .flowMappingEnd) (node .flow)
        return .entries ((key, value) :: (← entries (.flowMapping false)))
      | _ =>
        let key ← node .flow
        return .entries ((key, missing) :: (← entries (.flowMapping false)))

/-- The directives in front of a document: at most one version, which must be known, and each tag
handle at most once. -/
def readDirectives (version : Bool) (handles : Handles) : List Token →
    Except Problem (Handles × List Token)
  | .versionDirective major minor :: rest =>
    if version then .error (.grammar "found duplicate %YAML directive")
    else if major ≠ 1 || (minor ≠ 1 && minor ≠ 2) then
      .error (.grammar "found incompatible YAML document")
    else readDirectives true handles rest
  | .tagDirective handle start :: rest =>
    if (handles.lookup handle).isSome then .error (.grammar "found duplicate %TAG directive")
    else readDirectives version ((handle, start) :: handles) rest
  | tokens => .ok (handles, tokens)

def endsDocument : Token → Bool
  | .versionDirective .. | .tagDirective .. | .documentStart | .documentEnd | .streamEnd => true
  | _ => false

/-- The content of a document. Behind a mark it may be left out. -/
def readContent (handles : Handles) (marked : Bool) (tokens : List Token) :
    Except Problem (Node × List Token) :=
  if marked && endsDocument (tokens.headD .streamEnd) then .ok (missing, tokens)
  else do
    let (found, rest) ← (readGoal handles (4 * tokens.length + 4) (.node .block)).run tokens
    return (found.asNode, rest)

/-- The one document of a text; none if the text has no document. -/
def ofTokens (tokens : List Token) : Except Problem (Option Node) := do
  if tokens.head? = some .streamEnd then return none
  let (handles, rest) ← readDirectives false [] tokens
  let handles := handles ++ standardHandles
  let marked := rest.head? = some .documentStart
  if !marked && rest.length ≠ tokens.length then
    throw (.grammar "did not find expected <document start>")
  let (n, rest) ← readContent handles marked (if marked then rest.tail else rest)
  match rest.dropWhile (· = .documentEnd) with
  | [.streamEnd] => return some n
  | _ => throw (.grammar "more than one document")

end Node
end Directives.Document.Yaml
