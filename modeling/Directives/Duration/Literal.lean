import Directives.Duration.Unit
import Directives.Text.Blank
import Directives.Text.Quoted

/-! Durations as text, such as `1h 30m` or `1.5s`: numbers with units, which add up. Reading goes
through the characters once; offsets in messages count octets. -/
namespace Directives.Duration

inductive Malformed
  | empty
  | numberExpected (offset : Nat)
  | invalidCharacter (offset : Nat)
  | tooLarge
  | unitNeeded (value : Nat)
  | unknownUnit (word : String)
  deriving DecidableEq, Repr

namespace Malformed

def message : Malformed → String
  | empty => "value was empty"
  | numberExpected offset => s!"expected number at {offset}"
  | invalidCharacter offset => s!"invalid character at {offset}"
  | tooLarge => "number is too large or cannot be represented without a lack of precision " ++
      "(values below 1ns are not supported)"
  | unitNeeded value => s!"time unit needed, for example {value}sec or {value}ms"
  | unknownUnit word => s!"unknown time unit {Text.quoted word}, supported units: " ++
      "ns, us/µs, ms, sec, min, hours, days, weeks, months, years (and few variations)"

end Malformed

/-- The digits after a decimal point, as a quotient by a power of ten. -/
structure Fraction where
  numerator : Nat
  denominator : Nat

inductive Phase
  /-- Before a number, since `mark`; `opened` once a number was read. -/
  | seek (opened : Bool) (mark : Nat)
  | whole (value : Nat)
  /-- After a decimal point; a complaint about the next character is placed at `mark`. -/
  | fraction (value : Nat) (part : Fraction) (mark : Nat)
  | unit (value : Nat) (part : Option Fraction) (word : List Char)

/-- The reader after some characters: their length in octets and the sum of what is complete. -/
structure Progress where
  offset : Nat
  total : Duration
  phase : Phase

def fitting (n : Nat) : Except Malformed Nat :=
  if n < 18446744073709551616 then .ok n else .error .tooLarge

/-- Adds seconds and nanoseconds to a duration, each step within sixty-four bits. -/
def plus (total : Duration) (seconds nanos : Nat) : Except Malformed Duration := do
  let nanos ← fitting (total.nanos + nanos)
  match ofParts? (total.seconds + seconds) nanos with
  | some sum => pure sum
  | none => throw .tooLarge

/-- A fraction of a unit; it must come out whole in nanoseconds, from the hour on in seconds. -/
def Fraction.parts (part : Fraction) (unit : Unit) : Except Malformed (Nat × Nat) := do
  let share (scale : Nat) : Except Malformed Nat := do
    let scaled ← fitting (part.numerator * scale)
    if scaled % part.denominator = 0 then pure (scaled / part.denominator) else throw .tooLarge
  match unit with
  | .nanosecond => throw .tooLarge
  | .microsecond => return (0, ← share 1000)
  | .millisecond => return (0, ← share 1000000)
  | .second => return (0, ← share 1000000000)
  | .minute => return (0, ← share 60000000000)
  | unit => return (← share unit.seconds, 0)

def addUnits (total : Duration) (value : Nat) (part : Option Fraction) (word : List Char) :
    Except Malformed Duration := do
  if word.isEmpty then throw (.unitNeeded value)
  match Unit.ofWord? (String.ofList word) with
  | none => throw (.unknownUnit (String.ofList word))
  | some unit =>
    let total ← match unit.nanos? with
      | some scale => do plus total 0 (← fitting (value * scale))
      | none => do plus total (← fitting (value * unit.seconds)) 0
    match part with
    | none => pure total
    | some part =>
      let (seconds, nanos) ← part.parts unit
      plus total seconds nanos

def isUnitLetter (c : Char) : Bool := c.isAlpha || c == 'µ'

def digitValue (c : Char) : Nat := c.toNat - '0'.toNat

def step (p : Progress) (c : Char) : Except Malformed Progress :=
  let next := p.offset + c.utf8Size
  match p.phase with
  | .seek opened mark =>
    if c.isDigit then .ok ⟨next, p.total, .whole (digitValue c)⟩
    else if Text.isBlank c then .ok ⟨next, p.total, .seek opened mark⟩
    else .error (.numberExpected mark)
  | .whole value =>
    if c.isDigit then do
      let value ← fitting (value * 10 + digitValue c)
      pure ⟨next, p.total, .whole value⟩
    else if Text.isBlank c then .ok ⟨next, p.total, .whole value⟩
    else if isUnitLetter c then .ok ⟨next, p.total, .unit value none [c]⟩
    else if c = '.' then .ok ⟨next, p.total, .fraction value ⟨0, 1⟩ p.offset⟩
    else .error (.invalidCharacter p.offset)
  | .fraction value part mark =>
    if c.isDigit then do
      let denominator ← fitting (part.denominator * 10)
      let numerator ← fitting (part.numerator * 10 + digitValue c)
      pure ⟨next, p.total, .fraction value ⟨numerator, denominator⟩ next⟩
    else if Text.isBlank c then .ok ⟨next, p.total, .fraction value part next⟩
    else if isUnitLetter c && part.denominator != 1 then
      .ok ⟨next, p.total, .unit value (some part) [c]⟩
    else .error (.invalidCharacter mark)
  | .unit value part word =>
    if c.isDigit then do
      pure ⟨next, ← addUnits p.total value part word, .whole (digitValue c)⟩
    else if Text.isBlank c then do
      pure ⟨next, ← addUnits p.total value part word, .seek true next⟩
    else if isUnitLetter c then .ok ⟨next, p.total, .unit value part (word ++ [c])⟩
    else .error (.invalidCharacter p.offset)

def finish (p : Progress) : Except Malformed Duration :=
  match p.phase with
  | .seek false _ => .error .empty
  | .seek true _ => .ok p.total
  | .whole value => .error (.unitNeeded value)
  | .fraction value part mark =>
    if part.denominator = 1 then .error (.invalidCharacter mark) else .error (.unitNeeded value)
  | .unit value part word => addUnits p.total value part word

/-- Reads a duration. A lone `0` needs no unit. -/
def ofText (text : String) : Except Malformed Duration :=
  if text = "0" then .ok .zero
  else do finish (← text.toList.foldlM step ⟨0, .zero, .seek false 0⟩)

/-- The counts of each unit in a duration, the largest unit first, and how each is written. -/
def counts (d : Duration) : List (Nat × String) :=
  let years := d.seconds / 31557600
  let yearRest := d.seconds % 31557600
  let months := yearRest / 2630016
  let monthRest := yearRest % 2630016
  let days := monthRest / 86400
  let dayRest := monthRest % 86400
  let plural (n : Nat) (name : String) := if 1 < n then name ++ "s" else name
  [(years, plural years "year"), (months, plural months "month"), (days, plural days "day"),
   (dayRest / 3600, "h"), (dayRest % 3600 / 60, "m"), (dayRest % 60, "s"),
   (d.nanos / 1000000, "ms"), (d.nanos / 1000 % 1000, "us"), (d.nanos % 1000, "ns")]

/-- Writes a duration: each unit that occurs, separated by spaces. -/
def toText (d : Duration) : String :=
  let parts := (d.counts.filter (·.1 ≠ 0)).map fun (n, unit) => toString n ++ unit
  if parts.isEmpty then "0s" else " ".intercalate parts

theorem forall_mem_intercalate {p : Char → Prop} {between : String} {parts : List String}
    (outside : ∀ c ∈ between.toList, p c) (inside : ∀ part ∈ parts, ∀ c ∈ part.toList, p c) :
    ∀ c ∈ (between.intercalate parts).toList, p c := by
  induction parts with
  | nil => simp
  | cons part rest ih =>
    obtain ⟨first, others⟩ := List.forall_mem_cons.mp inside
    cases rest with
    | nil => simpa using first
    | cons next rest =>
      rw [String.intercalate_cons_cons, String.toList_append, String.toList_append]
      exact List.forall_mem_append.mpr ⟨List.forall_mem_append.mpr ⟨first, outside⟩, ih others⟩

theorem isLower_of_mem_counts (d : Duration) :
    ∀ entry ∈ d.counts, ∀ c ∈ entry.2.toList, c.isLower = true := by
  have unit {name : String} (lower : name.toList.all Char.isLower = true) :
      ∀ c ∈ name.toList, c.isLower = true := List.all_eq_true.mp lower
  have plural (n : Nat) {name : String} (lower : name.toList.all Char.isLower = true) :
      ∀ c ∈ (if 1 < n then name ++ "s" else name).toList, c.isLower = true := by
    split
    · rw [String.toList_append]
      exact List.forall_mem_append.mpr ⟨unit lower, unit (by decide)⟩
    · exact unit lower
  simp only [counts, List.forall_mem_cons]
  exact ⟨plural _ (by decide), plural _ (by decide), plural _ (by decide), unit (by decide),
    unit (by decide), unit (by decide), unit (by decide), unit (by decide), unit (by decide),
    List.forall_mem_nil _⟩

/-- Durations are written in digits, small letters and blanks. -/
theorem plain_toText (d : Duration) :
    ∀ c ∈ d.toText.toList, c.isDigit = true ∨ c.isLower = true ∨ c = ' ' := by
  have parts : ∀ part ∈ (d.counts.filter (·.1 ≠ 0)).map (fun (n, unit) => toString n ++ unit),
      ∀ c ∈ part.toList, c.isDigit = true ∨ c.isLower = true ∨ c = ' ' := by
    intro part member
    obtain ⟨⟨n, unit⟩, among, rfl⟩ := List.mem_map.mp member
    rw [String.toList_append]
    refine List.forall_mem_append.mpr ⟨fun c member => .inl ?_, fun c member => .inr (.inl ?_)⟩
    · rw [Nat.toString_eq_ofList_toDigits, String.toList_ofList] at member
      exact Nat.isDigit_of_mem_toDigits (by omega) (by omega) member
    · exact isLower_of_mem_counts d (n, unit) (List.mem_filter.mp among).1 c member
  have zero : "0s".toList = ['0', 's'] := by decide
  have blank : " ".toList = [' '] := by decide
  simp only [toText]
  split
  · rw [zero]
    exact List.forall_mem_cons.mpr ⟨.inl rfl, List.forall_mem_singleton.mpr (.inr (.inl rfl))⟩
  · refine forall_mem_intercalate ?_ parts
    rw [blank]
    exact List.forall_mem_singleton.mpr (.inr (.inr rfl))

end Directives.Duration
