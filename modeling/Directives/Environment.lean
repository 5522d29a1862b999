import Directives.Text.Utf8

/-! Environment variables: entries `name=value` of octets, the value not always text. -/
namespace Directives

/-- The entries of an environment, in the order in which they are searched. -/
structure Environment where
  entries : List (List UInt8) := []
  deriving DecidableEq

namespace Environment

private def equalSign : UInt8 := 61

/-- The octets of the variable with this name. A name is matched against the beginning of an
entry, so it may itself contain an equal sign; empty names and names with a NUL match nothing. -/
def octets? (e : Environment) (name : String) : Option (List UInt8) :=
  let wanted := Text.toUtf8 name
  if wanted.isEmpty || wanted.contains 0 then none
  else
    (e.entries.find? (wanted ++ [equalSign]).isPrefixOf).map (·.drop (wanted.length + 1))

/-- The value as text, U+FFFD standing for what is not text. -/
def text? (e : Environment) (name : String) : Option String :=
  (e.octets? name).map Text.ofUtf8Lossy

/-- The variable is not set, or set to nothing. -/
def Unset (e : Environment) (name : String) : Prop := e.text? name = none ∨ e.text? name = some ""

theorem unset_or_set (e : Environment) (name : String) :
    e.Unset name ∨ ∃ value, e.text? name = some value ∧ value ≠ "" := by
  rw [Unset]
  cases e.text? name with
  | none => exact .inl (.inl rfl)
  | some value =>
    by_cases empty : value = ""
    · exact .inl (.inr (congrArg some empty))
    · exact .inr ⟨value, rfl, empty⟩

/-- The value, if it is text. -/
def strict? (e : Environment) (name : String) : Option String :=
  (e.octets? name).bind Text.ofUtf8?

def unset (e : Environment) (name : String) : Environment :=
  ⟨e.entries.filter fun entry => !(Text.toUtf8 name ++ [equalSign]).isPrefixOf entry⟩

def set (e : Environment) (name : String) (value : List UInt8) : Environment :=
  ⟨(e.unset name).entries ++ [Text.toUtf8 name ++ equalSign :: value]⟩

end Environment
end Directives
