import Directives.Tree
import Directives.Decimal.Layout
import Directives.Duration.Literal

/-! The plain text of a value, for people: texts stand as they are, containers in brackets. -/
namespace Directives.Tree

/-- Numbers are written in positional notation, however long, and integers without a point. -/
def plainNumber : Decimal.Layout where
  tie := .upward
  positionalAbove := none
  positionalBelow := none
  pointZero := false
  positiveSign := ""
  positiveInfinity := "inf"
  negativeInfinity := "-inf"
  notANumber := "NaN"

mutual

def display : Tree → String
  | null => "null"
  | bool b => toString b
  | integer i => toString i.toInt
  | float x => Decimal.write plainNumber x
  | text s => s
  | sequence items => "[" ++ ", ".intercalate (displayItems items) ++ "]"
  | mapping fields => "\x7b" ++ ", ".intercalate (displayFields fields) ++ "\x7d"
  | duration d => d.toText
termination_by structural t => t

def displayItems : List Tree → List String
  | [] => []
  | item :: rest => display item :: displayItems rest
termination_by structural ts => ts

def displayFields : List (String × Tree) → List String
  | [] => []
  | (key, value) :: rest => (key ++ ": " ++ display value) :: displayFields rest
termination_by structural fs => fs

end

end Directives.Tree
