import Directives.Tree

/-! Identity of trees can be decided. -/
namespace Directives.Tree

mutual

/-- Whether two trees are one and the same, down to the bits of numbers and the order of keys. -/
def same : Tree → Tree → Bool
  | null, null => true
  | bool a, bool b => a == b
  | integer a, integer b => a == b
  | float a, float b => a == b
  | text a, text b => a == b
  | sequence a, sequence b => sameItems a b
  | mapping a, mapping b => sameFields a b
  | duration a, duration b => a == b
  | _, _ => false
termination_by structural t => t

def sameItems : List Tree → List Tree → Bool
  | [], [] => true
  | a :: as, b :: bs => same a b && sameItems as bs
  | _, _ => false
termination_by structural ts => ts

def sameFields : List (String × Tree) → List (String × Tree) → Bool
  | [], [] => true
  | (k, a) :: as, (l, b) :: bs => k == l && same a b && sameFields as bs
  | _, _ => false
termination_by structural fs => fs

end

mutual

theorem same_iff : ∀ a b : Tree, same a b = true ↔ a = b
  | null, b | bool _, b | integer _, b | float _, b | text _, b | duration _, b => by
    cases b <;> simp [same]
  | sequence as, b => by
    cases b with
    | sequence bs => simp [same, sameItems_iff as bs]
    | _ => simp [same]
  | mapping as, b => by
    cases b with
    | mapping bs => simp [same, sameFields_iff as bs]
    | _ => simp [same]
termination_by structural a => a

theorem sameItems_iff : ∀ as bs : List Tree, sameItems as bs = true ↔ as = bs
  | [], bs => by cases bs <;> simp [sameItems]
  | a :: as, bs => by
    cases bs with
    | nil => simp [sameItems]
    | cons b bs => simp [sameItems, same_iff a b, sameItems_iff as bs]
termination_by structural as => as

theorem sameFields_iff : ∀ as bs : List (String × Tree), sameFields as bs = true ↔ as = bs
  | [], bs => by cases bs <;> simp [sameFields]
  | (k, a) :: as, bs => by
    cases bs with
    | nil => simp [sameFields]
    | cons b bs => simp [sameFields, same_iff a b.2, sameFields_iff as bs, Prod.ext_iff]
termination_by structural as => as

end

instance : DecidableEq Tree := fun a b => decidable_of_iff _ (same_iff a b)

end Directives.Tree
