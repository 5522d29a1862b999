import Directives.Base64
import Directives.Document.Json.Writer
import Directives.Fault
import Directives.Text.Quoted

/-! Reading documents as values of a fixed form: numbers of some width, texts, lists, and records
with named fields. A document of another form is refused, with the reason. -/
namespace Directives

/-- Why a document does not have the form it should. -/
inductive Mismatch
  /-- Something else was expected than what is described. -/
  | kind (found expected : String)
  | range (value : Int) (expected : String)
  | missingField (name : String)
  | repeatedField (name : String)
  | unknownField (name : String) (known : List String)
  | length (count : Nat) (expected : String)
  | overflow (type : String)
  | base64 (malformed : Base64.Malformed)
  /-- None of the variants of the type can be read. -/
  | noVariant (type : String)
  deriving DecidableEq, Repr

def Mismatch.message : Mismatch → String
  | kind found expected => s!"invalid type: {found}, expected {expected}"
  | range value expected => s!"invalid value: integer `{value}`, expected {expected}"
  | missingField name => s!"missing field `{name}`"
  | repeatedField name => s!"duplicate field `{name}`"
  | unknownField name known =>
    s!"unknown field `{name}`, expected " ++ " or ".intercalate (known.map fun k => s!"`{k}`")
  | length count expected => s!"invalid length {count}, expected {expected}"
  | overflow type => s!"overflow deserializing {type}"
  | base64 malformed => s!"invalid base64: {malformed.message}"
  | noVariant type => s!"data did not match any variant of untagged enum {type}"

abbrev Decoder (α : Type) := Document → Except Mismatch α

namespace Decoder

def describe : Document → String
  | .null => "null"
  | .bool b => s!"boolean `{b}`"
  | .integer i => s!"integer `{i}`"
  | .float x => s!"floating point `{Decimal.write Document.Json.number x}`"
  | .text s => s!"string {Text.quoted s}"
  | .list _ => "sequence"
  | .object _ => "map"

def unexpected {α : Type} (expected : String) (d : Document) : Except Mismatch α :=
  .error (.kind (describe d) expected)

def text : Decoder String
  | .text s => .ok s
  | d => unexpected "a string" d

def bool : Decoder Bool
  | .bool b => .ok b
  | d => unexpected "a boolean" d

def integer (low high : Int) (expected : String) : Decoder Int
  | .integer i => if low ≤ i ∧ i ≤ high then .ok i else .error (.range i expected)
  | d => unexpected expected d

def int64 : Decoder Int := integer (-9223372036854775808) 9223372036854775807 "i64"

def word64 : Decoder Nat := fun d => (integer 0 18446744073709551615 "u64" d).map Int.toNat

def word32 : Decoder Nat := fun d => (integer 0 4294967295 "u32" d).map Int.toNat

/-- A number; an integer is rounded to the nearest one. -/
def float : Decoder Binary64
  | .float x => .ok x
  | .integer i => .ok (.ofInt i)
  | d => unexpected "f64" d

def null : Decoder Unit
  | .null => .ok ()
  | d => unexpected "unit variant Value::Null" d

def octets : Decoder (List UInt8) := fun d => do
  match Base64.ofText (← text d) with
  | .ok octets => return octets
  | .error malformed => throw (.base64 malformed)

def optional {α : Type} (decode : Decoder α) : Decoder (Option α)
  | .null => .ok none
  | d => (decode d).map some

def list {α : Type} (decode : Decoder α) : Decoder (List α)
  | .list items => items.mapM decode
  | d => unexpected "a sequence" d

/-- An object with any keys; of entries with one key the last value counts. -/
def fields {α : Type} (decode : Decoder α) : Decoder (List (String × α))
  | .object entries => do
    let decoded ← entries.mapM fun (key, d) => return (key, ← decode d)
    return Tree.ofEntries decoded
  | d => unexpected "a map" d

/-- A document that is read in two steps is read by each. -/
theorem exists_of_bind {α β : Type} {first : Except Mismatch α} {next : α → Except Mismatch β} {b : β}
    (done : (first >>= next) = .ok b) : ∃ a, first = .ok a ∧ next a = .ok b := by
  cases first with
  | error mismatch => cases done
  | ok a => exact ⟨a, rfl, done⟩

/-- A field of a record: its name, a check of its form, and whether it may be left out. -/
structure Field where
  name : String
  check : Document → Except Mismatch Unit
  optional : Bool := false

def Field.required {α : Type} (name : String) (decode : Decoder α) : Field :=
  { name, check := fun d => (decode d).map fun _ => () }

def Field.defaulted {α : Type} (name : String) (decode : Decoder α) : Field :=
  { Field.required name decode with optional := true }

/-- The form of a record. Fields are given by name in any order, or by position. -/
structure Record where
  /-- What a document is expected to be. -/
  expected : String
  /-- What a list of too few items is expected to be. -/
  expectedItems : String
  fields : List Field
  /-- Whether entries under other names are passed over. -/
  lenient : Bool := true

def Record.named (name : String) (fields : List Field) : Record where
  expected := s!"struct {name}"
  expectedItems :=
    s!"struct {name} with {fields.length} element" ++ (if fields.length = 1 then "" else "s")
  fields := fields

namespace Record

/-- Checks entries in the order in which they stand; `seen` holds the names of those before. -/
def checkEntries (r : Record) (seen : List String) :
    List (String × Document) → Except Mismatch Unit
  | [] => .ok ()
  | (key, d) :: rest =>
    match r.fields.find? (·.name == key) with
    | some field => do
      if key ∈ seen then throw (.repeatedField key)
      field.check d
      checkEntries r (key :: seen) rest
    | none =>
      if r.lenient then checkEntries r seen rest
      else .error (.unknownField key (r.fields.map Field.name))

/-- Pairs fields with items by position. -/
def checkItems (r : Record) (position : Nat) :
    List Field → List Document → Except Mismatch (List (String × Document))
  | [], [] => .ok []
  | [], rest => .error (.length (position + rest.length) "fewer elements in array")
  | field :: fields, [] =>
    if field.optional then checkItems r position fields []
    else .error (.length position r.expectedItems)
  | field :: fields, d :: rest => do
    field.check d
    return (field.name, d) :: (← checkItems r (position + 1) fields rest)

/-- The documents of a record's fields by name. Those that may be left out may be missing. -/
def select (r : Record) : Decoder (List (String × Document))
  | .object entries => do
    r.checkEntries [] entries
    match r.fields.find? fun field => !field.optional && (entries.lookup field.name).isNone with
    | some field => throw (.missingField field.name)
    | none => return entries
  | .list items => r.checkItems 0 r.fields items
  | d => unexpected r.expected d

end Record

def value {α : Type} (selected : List (String × Document)) (name : String) (decode : Decoder α) :
    Except Mismatch α :=
  match selected.lookup name with
  | some d => decode d
  | none => .error (.missingField name)

def valueOr {α : Type} (selected : List (String × Document)) (name : String) (decode : Decoder α)
    (default : α) : Except Mismatch α :=
  match selected.lookup name with
  | some d => decode d
  | none => .ok default

def durationRecord : Record where
  expected := "struct Duration"
  expectedItems := "struct Duration"
  fields := [.required "secs" word64, .required "nanos" word32]
  lenient := false

/-- A duration, of seconds and any number of nanoseconds. -/
def duration : Decoder Duration := fun d => do
  let selected ← durationRecord.select d
  match Duration.ofParts? (← value selected "secs" word64) (← value selected "nanos" word32) with
  | some d => return d
  | none => throw (.overflow "Duration")

/-- The first reading in a list that succeeds. -/
def trial {α : Type} (type : String) : List (Decoder α) → Decoder α
  | [], _ => .error (.noVariant type)
  | decode :: rest, d =>
    match decode d with
    | .ok a => .ok a
    | .error _ => trial type rest d

/-- What a configuration value may be, in the order in which it is tried. An integer could be read as a
float as well, and the parts of a duration as a duration, but other variants stand before these. -/
def variants (sequence : Decoder (List Tree)) (mapping : Decoder (List (String × Tree))) :
    List (Decoder Tree) :=
  [fun d => (null d).map fun _ => .null,
    fun d => (bool d).map .bool,
    fun d => (int64 d).map fun i => .integer (Int64.ofInt i),
    fun d => (float d).map .float,
    fun d => (text d).map .text,
    fun d => (sequence d).map .sequence,
    fun d => (mapping d).map .mapping,
    fun d => (duration d).map .duration]

mutual

/-- Any configuration value: the first variant that can be read, nested values included. -/
def tree : Decoder Tree
  | .list items => trial "Value" (variants (fun _ => treeItems items) (unexpected "a map")) (.list items)
  | .object entries =>
    trial "Value" (variants (unexpected "a sequence") fun _ => (treeEntries entries).map Tree.ofEntries)
      (.object entries)
  | scalar => trial "Value" (variants (unexpected "a sequence") (unexpected "a map")) scalar
termination_by structural d => d

def treeItems : List Document → Except Mismatch (List Tree)
  | [] => .ok []
  | d :: rest => do return (← tree d) :: (← treeItems rest)
termination_by structural ds => ds

def treeEntries : List (String × Document) → Except Mismatch (List (String × Tree))
  | [] => .ok []
  | (key, d) :: rest => do return (key, ← tree d) :: (← treeEntries rest)
termination_by structural es => es

end

section
variable {α : Type} {type : String} {decode : Decoder α} {rest : List (Decoder α)} {d : Document}

theorem trial_of_ok {a : α} (done : decode d = .ok a) : trial type (decode :: rest) d = .ok a := by
  rw [trial, done]

theorem trial_of_error {mismatch : Mismatch} (failed : decode d = .error mismatch) :
    trial type (decode :: rest) d = trial type rest d := by
  rw [trial, failed]

end

theorem treeItems_eq_mapM (items : List Document) : treeItems items = items.mapM tree := by
  induction items with
  | nil => rfl
  | cons d rest ih => rw [treeItems, ih, List.mapM_cons]

theorem treeEntries_eq_mapM (entries : List (String × Document)) :
    treeEntries entries = entries.mapM fun (key, d) => do return (key, ← tree d) := by
  induction entries with
  | nil => rfl
  | cons entry rest ih => rw [treeEntries, ih, List.mapM_cons, bind_assoc]; rfl

/-- A value is read by trying its variants, and so are the values in it. -/
theorem tree_eq_trial (d : Document) : tree d = trial "Value" (variants (list tree) (fields tree)) d := by
  cases d with
  | list items =>
    rw [tree, treeItems_eq_mapM]
    rfl
  | object entries =>
    rw [tree, treeEntries_eq_mapM]
    rfl
  | null | bool | integer | float | text => rfl

/-- An integer is read as one if it fits, and as a float otherwise. -/
theorem tree_integer (i : Int) : tree (.integer i) = .ok (Document.number i) := by
  have tried : tree (.integer i) =
      trial "Value" (variants (unexpected "a sequence") (unexpected "a map")) (.integer i) := rfl
  rw [tried, variants, trial_of_error rfl, trial_of_error rfl, Document.number]
  by_cases fits : -9223372036854775808 ≤ i ∧ i ≤ 9223372036854775807
  · have read : int64 (.integer i) = .ok i := if_pos fits
    rw [if_pos fits, trial_of_ok (by rw [read]; rfl)]
  · have refused : int64 (.integer i) = .error (.range i "i64") := if_neg fits
    rw [if_neg fits, trial_of_error (by rw [refused]; rfl)]
    exact trial_of_ok rfl

mutual

/-- One variant can always be read, and an object is a mapping whatever its keys are. -/
theorem tree_eq_toTree : ∀ d : Document, tree d = .ok d.toTree
  | .null | .bool _ | .float _ | .text _ => rfl
  | .integer i => tree_integer i
  | .list items => by
    rw [tree, variants, treeItems_eq_treesOf items]
    rfl
  | .object entries => by
    rw [tree, variants, treeEntries_eq_fieldsOf entries]
    rfl
termination_by structural d => d

theorem treeItems_eq_treesOf : ∀ items : List Document, treeItems items = .ok (Document.treesOf items)
  | [] => rfl
  | d :: rest => by
    rw [treeItems, tree_eq_toTree d, treeItems_eq_treesOf rest]
    rfl
termination_by structural items => items

theorem treeEntries_eq_fieldsOf : ∀ entries : List (String × Document),
    treeEntries entries = .ok (Document.fieldsOf entries)
  | [] => rfl
  | (key, d) :: rest => by
    rw [treeEntries, tree_eq_toTree d, treeEntries_eq_fieldsOf rest]
    rfl
termination_by structural entries => entries

end

theorem fields_tree (entries : List (String × Document)) :
    fields tree (.object entries) = .ok (Tree.ofEntries (Document.fieldsOf entries)) := by
  rw [fields, ← treeEntries_eq_mapM, treeEntries_eq_fieldsOf]
  rfl

end Decoder

/-- Reads a configuration tree as a value of a fixed form. The tree is brought to normal form
first, so objects are seen with sorted keys and numbers that are not finite as null. -/
def Tree.decode {α : Type} (decode : Decoder α) (t : Tree) : Except Fault α :=
  match decode (Document.ofTree t).normalize with
  | .ok a => .ok a
  | .error mismatch =>
    .error ((Fault.parse s!"failed to decode config: {mismatch.message}").withHelp
      "Check that the file's keys and value types match the target struct")

end Directives
