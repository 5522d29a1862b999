import Directives.Tree

/-! When two trees are equal as values: a NaN equals nothing, the zeros are equal, and the order of
keys does not count. -/
namespace Directives.Tree

mutual

def agrees : Tree → Tree → Bool
  | null, null => true
  | bool a, bool b => a == b
  | integer a, integer b => a == b
  | float a, float b => a.numEq b
  | text a, text b => a == b
  | sequence a, sequence b => itemsAgree a b
  | mapping a, mapping b => a.length == b.length && fieldsAgree a b
  | duration a, duration b => a == b
  | _, _ => false
termination_by structural t => t

def itemsAgree : List Tree → List Tree → Bool
  | [], [] => true
  | a :: as, b :: bs => agrees a b && itemsAgree as bs
  | _, _ => false
termination_by structural ts => ts

/-- Whether each field has an equal value under its key on the other side. -/
def fieldsAgree : List (String × Tree) → List (String × Tree) → Bool
  | [], _ => true
  | (key, a) :: as, bs =>
    (match bs.lookup key with
      | some b => agrees a b
      | none => false) && fieldsAgree as bs
termination_by structural fs => fs

end

end Directives.Tree
