import Directives.Integer.Literal

/-! Places in a configuration tree: steps into mappings and sequences, and their text. A key stands
behind a point and an index in brackets, as in `servers[0].host`. -/
namespace Directives

inductive Step
  | key (name : String)
  | index (position : Nat)
  deriving DecidableEq, Repr

/-- The steps from the root of a tree to a place in it. -/
abbrev Location := List Step

namespace Location

/-- Puts one step in front of the text of those below it. -/
def renderStep : Step → Option String → String
  | .key name, none => name
  | .index position, none => s!"[{position}]"
  | .key name, some inner =>
    if inner.startsWith "[" then name ++ inner else s!"{name}.{inner}"
  | .index position, some inner =>
    if inner.startsWith "[" then s!"[{position}]{inner}" else s!"[{position}].{inner}"

/-- The text of a place; the root has none. -/
def render : Location → Option String
  | [] => none
  | step :: rest => some (renderStep step (render rest))

theorem render_eq_foldr (place : Location) :
    render place = place.foldr (fun step inner => some (renderStep step inner)) none := by
  induction place with
  | nil => rfl
  | cons step rest ih => rw [render, List.foldr_cons, ih]

theorem render_eq_none {place : Location} : render place = none ↔ place = [] := by
  cases place <;> simp [render]

inductive Malformed
  | strayBracket
  | invalidIndex (text : String)
  deriving DecidableEq, Repr

def Malformed.message : Malformed → String
  | strayBracket => "Unexpected ']' in path"
  | invalidIndex text => s!"Invalid array index in path: {text}"

def keyStep (key : List Char) : List Step :=
  if key.isEmpty then [] else [.key (String.ofList key)]

def indexStep (text : List Char) : Except Malformed Step :=
  match Integer.word64OfText (String.ofList text) with
  | .ok position => .ok (.index position)
  | .error _ => .error (.invalidIndex (String.ofList text))

/-- Reads steps. `key` holds the characters of the key so far; `index` those since an open
bracket, which the end of the text closes too. -/
def read (key : List Char) (index : Option (List Char)) : List Char → Except Malformed Location
  | [] =>
    match index with
    | none => .ok (keyStep key)
    | some text => (indexStep text).map ([·])
  | c :: rest =>
    match index with
    | some text =>
      if c = ']' then do
        let step ← indexStep text
        return step :: (← read [] none rest)
      else read [] (some (text ++ [c])) rest
    | none =>
      if c = '.' then (read [] none rest).map (keyStep key ++ ·)
      else if c = '[' then (read [] (some []) rest).map (keyStep key ++ ·)
      else if c = ']' then .error .strayBracket
      else read (key ++ [c]) none rest

/-- The place that a text names. Points only separate keys: empty keys are passed over. -/
def ofText (text : String) : Except Malformed Location := read [] none text.toList

end Location
end Directives
