import Directives.Directive.Split

/-! The pattern that the names of coercions are written as, and the grammar that takes texts apart by its
matches. What a pattern means is read from its text, character by character, so a name stands for itself
there only because it is escaped. -/
namespace Directives

/-- A pattern `^(.+)::(first|second)$`: a line, colons, and one of several texts up to the end. -/
structure Pattern where
  alternatives : List (List Char)
  deriving DecidableEq, Repr

namespace Pattern

def isMeta (c : Char) : Bool :=
  ['\\', '.', '+', '*', '?', '(', ')', '|', '[', ']', '{', '}', '^', '$', '#', '&', '-', '~'].contains c

def escape : List Char → List Char
  | [] => []
  | c :: rest => if isMeta c then '\\' :: c :: escape rest else c :: escape rest

def opening : String := "^(.+)::("

def alternation (names : List String) : String :=
  "|".intercalate (names.map fun name => String.ofList (escape name.toList))

def write (names : List String) : String := opening ++ alternation names ++ ")$"

def lead (text : List Char) : List (List Char) → List (List Char)
  | [] => [text]
  | first :: more => (text ++ first) :: more

/-- Reads alternatives up to the bracket that closes them, and gives what is behind it. A character that
means something else there is refused, unless it is escaped. -/
def alternatives? : List Char → Option (List (List Char) × List Char)
  | [] => none
  | ')' :: rest => some ([[]], rest)
  | '|' :: rest => (alternatives? rest).map fun (found, behind) => ([] :: found, behind)
  | '\\' :: c :: rest =>
    if isMeta c then (alternatives? rest).map fun (found, behind) => (lead [c] found, behind) else none
  | c :: rest =>
    if isMeta c then none else (alternatives? rest).map fun (found, behind) => (lead [c] found, behind)

def read? (text : String) : Option Pattern :=
  match (opening.toList.isPrefixOf? text.toList).bind alternatives? with
  | some (found, ['$']) => some ⟨found⟩
  | _ => none

/-- The first match with a line of at most so many characters. A longer line is tried before a shorter
one, and with each line the alternatives from left to right. -/
def search? (p : Pattern) (text : List Char) : Nat → Option (List Char × List Char)
  | 0 => none
  | length + 1 =>
    let line := text.take (length + 1)
    let found := p.alternatives.find? fun name => text.drop (length + 1) == ':' :: ':' :: name
    match if Split.isStem line then found else none with
    | some name => some (line, name)
    | none => search? p text length

def captures? (p : Pattern) (text : List Char) : Option (List Char × List Char) :=
  p.search? text text.length

theorem search?_sound {p : Pattern} {text line name : List Char} {length : Nat}
    (found : p.search? text length = some (line, name)) :
    name ∈ p.alternatives ∧ text = line ++ ':' :: ':' :: name ∧ Split.isStem line = true := by
  induction length with
  | zero => cases found
  | succ length ih =>
    simp only [search?] at found
    split at found
    · next fits =>
      cases found
      split at fits
      · next stem =>
        have behind : text.drop (length + 1) = ':' :: ':' :: name := by
          simpa using List.find?_some fits
        exact ⟨List.mem_of_find?_eq_some fits, by rw [← behind, List.take_append_drop], stem⟩
      · cases fits
    · exact ih found

theorem captures?_shorter {p : Pattern} {text line name : List Char}
    (found : p.captures? text = some (line, name)) : line.length < text.length := by
  obtain ⟨_, shape, _⟩ := search?_sound found
  rw [shape]
  simp

end Pattern

/-- A grammar takes names off the end of a text by matching its pattern. Without names there is none. -/
structure Grammar where
  pattern : Option Pattern
  deriving DecidableEq, Repr

namespace Grammar

/-- The grammar that recognises some names, if the pattern for them can be read. -/
def ofNames? (names : List String) : Option Grammar :=
  if names.isEmpty then some ⟨none⟩
  else (Pattern.read? (Pattern.write (names.mergeSort fun a b => a ≤ b))).map fun p => ⟨some p⟩

def captures? (g : Grammar) (text : List Char) : Option (List Char × List Char) :=
  g.pattern.bind fun p => p.captures? text

theorem captures?_shorter {g : Grammar} {text line name : List Char}
    (found : g.captures? text = some (line, name)) : line.length < text.length := by
  obtain ⟨p, _, found⟩ := Option.bind_eq_some_iff.mp found
  exact Pattern.captures?_shorter found

/-- Matches until nothing comes off any more; `later` holds what came off before. -/
def peelAll (g : Grammar) (text : List Char) (later : List String) : List Char × List String :=
  match h : g.captures? text with
  | none => (text, later)
  | some (line, name) =>
    have := captures?_shorter h
    peelAll g line (String.ofList name :: later)
termination_by text.length

def split (g : Grammar) (text : String) : Split :=
  let (stem, coercions) := g.peelAll text.toList []
  ⟨String.ofList stem, coercions⟩

end Grammar
end Directives
