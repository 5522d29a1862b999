import Directives.Document.Yaml.Node
import Directives.Document.Yaml.Scalar

/-! YAML texts as documents. An alias stands for the node with its anchor; anchors are numbered
by how many names there were before. -/
namespace Directives.Document.Yaml

/-- A node in which aliases are numbers of anchored nodes. -/
inductive Linked
  | link (anchor : Nat)
  | scalar (tag : Option String) (value : String) (manner : Manner)
  | sequence (tag : Option String) (items : List Linked)
  | mapping (tag : Option String) (entries : List (Linked × Linked))
  deriving Inhabited

namespace Linked

/-- The numbers of the anchor names so far, and the nodes under each number, the one whose anchor
came last first. -/
structure Anchors where
  numbers : List (String × Nat) := []
  nodes : List (Nat × Linked) := []
  /-- How many marks the text has: one for a scalar or alias, two for a container. -/
  marks : Nat := 0

/-- An anchor's number, and how many anchored nodes were complete when it came. -/
abbrev Declared := Option (Nat × Nat)

/-- Gives an anchor the next number, which is how many different names there are. -/
def Anchors.declare (a : Anchors) : Option String → Declared × Anchors
  | none => (none, a)
  | some name =>
    let number := a.numbers.length
    (some (number, a.nodes.length),
      { a with numbers := (name, number) :: a.numbers.filter (·.1 ≠ name) })

/-- Puts a complete node under its number, behind those whose anchors came later. -/
def Anchors.bind (a : Anchors) (declared : Declared) (n : Linked) : Anchors :=
  match declared with
  | some (number, before) =>
    let later := a.nodes.length - before
    { a with nodes := a.nodes.take later ++ (number, n) :: a.nodes.drop later }
  | none => a

def Anchors.mark (a : Anchors) (count : Nat) : Anchors := { a with marks := a.marks + count }

mutual

/-- Replaces the names of a node's aliases by numbers. -/
def ofNode : Node → Anchors → Except Problem (Linked × Anchors)
  | .alias name, a =>
    match a.numbers.lookup name with
    | some number => .ok (.link number, a.mark 1)
    | none => .error (.anchors "unknown anchor")
  | .scalar properties value manner, a =>
    let (number, a) := a.declare properties.anchor
    let n := scalar properties.tag value manner
    .ok (n, (a.bind number n).mark 1)
  | .sequence properties items, a => do
    let (number, a) := a.declare properties.anchor
    let (items, a) ← ofNodes items a
    let n := sequence properties.tag items
    return (n, (a.bind number n).mark 2)
  | .mapping properties entries, a => do
    let (number, a) := a.declare properties.anchor
    let (entries, a) ← ofPairs entries a
    let n := mapping properties.tag entries
    return (n, (a.bind number n).mark 2)
termination_by structural n => n

def ofNodes : List Node → Anchors → Except Problem (List Linked × Anchors)
  | [], a => .ok ([], a)
  | n :: rest, a => do
    let (n, a) ← ofNode n a
    let (rest, a) ← ofNodes rest a
    return (n :: rest, a)
termination_by structural ns => ns

def ofPairs : List (Node × Node) → Anchors → Except Problem (List (Linked × Linked) × Anchors)
  | [], a => .ok ([], a)
  | (key, value) :: rest, a => do
    let (key, a) ← ofNode key a
    let (value, a) ← ofNode value a
    let (rest, a) ← ofPairs rest a
    return ((key, value) :: rest, a)
termination_by structural ps => ps

end

def maxDepth : Nat := 128

/-- Containers with a tag of one's own stand for nothing here. -/
def checkTag : Option String → Except Problem Unit
  | some tag => if tag.startsWith "!" then .error (.content s!"unknown tag {tag}") else .ok ()
  | none => .ok ()

/-- Follows links to a node that is none, counting them against a limit. -/
def follow (nodes : List (Nat × Linked)) (limit : Nat) (n : Linked) :
    StateT Nat (Except Problem) Linked := do
  match n with
  | link number =>
    modify (· + 1)
    if limit < (← get) then throw (.anchors "repetition limit exceeded")
    match nodes.lookup number with
    | some n => return n
    | none => throw (.anchors "unknown anchor")
  | n => return n

/-- The document of a node with room for so many containers inside one another. The state counts
the links that were followed. -/
def toDocument (nodes : List (Nat × Linked)) (limit : Nat) :
    Nat → Linked → StateT Nat (Except Problem) Document
  | room, n => do
    match ← follow nodes limit n with
    | link _ => throw (.anchors "unknown anchor")
    | scalar tag value manner => ofScalar tag manner value
    | sequence tag items =>
      checkTag tag
      match room with
      | 0 => throw (.content "recursion limit exceeded")
      | room + 1 => return .list (← items.mapM (toDocument nodes limit room))
    | mapping tag entries =>
      checkTag tag
      match room with
      | 0 => throw (.content "recursion limit exceeded")
      | room + 1 =>
        let entries ← entries.mapM fun (key, value) => do
          match ← toDocument nodes limit room key with
          | .text key => return (key, ← toDocument nodes limit room value)
          | _ => throw (.content "expected a string key")
        return .object entries

end Linked

/-- Links that may be followed for each mark in the text. -/
def linksPerMark : Nat := 100

/-- Reads a YAML text of one document. A text without any stands for null. -/
def read (text : String) : Except Problem Document := do
  match ← Node.ofTokens (← tokensOf text) with
  | none => return .null
  | some n =>
    let (linked, anchors) ← Linked.ofNode n {}
    let (d, _) ← (Linked.toDocument anchors.nodes (anchors.marks * linksPerMark) Linked.maxDepth
      linked).run 0
    return d

end Directives.Document.Yaml
