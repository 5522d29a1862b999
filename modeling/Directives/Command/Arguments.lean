import Directives.Command
import Directives.Duration.Literal

/-! Commands as they are written in a list of arguments: a name, and behind it options and
positional arguments in any order. An option is given once, by its name or its letter; its value
stands in the same argument or in the next one. -/
namespace Directives.Command

/-- An option, given as `--name` or `-x`. -/
structure Switch where
  name : String
  letter : Option Char := none
  takesValue : Bool := true

inductive Refusal
  | helpWanted
  | misused
  deriving DecidableEq, Repr

structure Given where
  options : List (String × String) := []
  positional : List String := []

namespace Given

def value? (g : Given) (name : String) : Option String := g.options.lookup name

def has (g : Given) (name : String) : Bool := (g.value? name).isSome

def withOption (name value : String) (g : Given) : Given :=
  { g with options := (name, value) :: g.options }

def withPositional (argument : String) (g : Given) : Given :=
  { g with positional := argument :: g.positional }

end Given

inductive Shape
  | positional
  /-- `--` alone: all that follows is positional. -/
  | escape
  | help
  /-- An option, with the value if that stands in the same argument. -/
  | option (switch : Switch) (value : Option String)
  | unknown

def Shape.of (switches : List Switch) (argument : String) : Shape :=
  match argument.toList with
  | ['-'] => .positional
  | ['-', '-'] => .escape
  | '-' :: '-' :: body =>
    let name := String.ofList (body.takeWhile (· ≠ '='))
    let value :=
      if '=' ∈ body then some (String.ofList ((body.dropWhile (· ≠ '=')).drop 1)) else none
    match switches.find? (·.name == name) with
    | some switch => .option switch value
    | none => if name = "help" && value.isNone then .help else .unknown
  | '-' :: letter :: tail =>
    match switches.find? (·.letter == some letter), tail with
    | some switch, [] => .option switch none
    | some switch, '=' :: value | some switch, value => .option switch (some (String.ofList value))
    | none, _ => if letter = 'h' then .help else .unknown
  | _ => .positional

def Given.ofArguments (switches : List Switch) : List String → Except Refusal Given
  | [] => .ok {}
  | argument :: rest =>
    match Shape.of switches argument with
    | .positional => (ofArguments switches rest).map (withPositional argument)
    | .escape => .ok { positional := rest }
    | .help => .error .helpWanted
    | .unknown => .error .misused
    | .option switch value =>
      match switch.takesValue, value, rest with
      | false, none, rest => (ofArguments switches rest).map (withOption switch.name "")
      | false, some _, _ => .error .misused
      | true, some value, rest => (ofArguments switches rest).map (withOption switch.name value)
      | true, none, [] => .error .misused
      | true, none, value :: rest =>
        match Shape.of [] value with
        | .positional => (ofArguments switches rest).map (withOption switch.name value)
        | _ => .error .misused

/-- Tells arguments apart, where no option may be given twice. -/
def Given.read (switches : List Switch) (arguments : List String) : Except Refusal Given := do
  let given ← ofArguments switches arguments
  if (given.options.map Prod.fst).Nodup then return given else throw .misused

def formatSwitch : Switch := { name := "format", letter := some 'f' }
def outputSwitch : Switch := { name := "output", letter := some 'o' }
def defaultSwitch : Switch := { name := "default", letter := some 'd' }
def timeoutSwitch : Switch := { name := "timeout" }
def withoutVaultSwitch : Switch := { name := "no-vault", takesValue := false }

/-- A path is not empty. -/
def pathOf (argument : String) : Except Refusal String :=
  if argument.isEmpty then .error .misused else .ok argument

def Limits.ofGiven (given : Given) : Except Refusal Limits := do
  let timeout ← match given.value? timeoutSwitch.name with
    | none => pure none
    | some text =>
      match Duration.ofText text with
      | .ok d => pure (some d)
      | .error _ => throw .misused
  return { timeout, withoutVault := given.has withoutVaultSwitch.name }

def readResolve (arguments : List String) : Except Refusal Command := do
  let given ← Given.read [formatSwitch, outputSwitch, timeoutSwitch, withoutVaultSwitch] arguments
  match given.positional with
  | [file] =>
    let output ← (given.value? outputSwitch.name).mapM pathOf
    return .resolve (← pathOf file) ((given.value? formatSwitch.name).getD "yaml") output
      (← Limits.ofGiven given)
  | _ => throw .misused

def readGet (arguments : List String) : Except Refusal Command := do
  let given ← Given.read [formatSwitch, defaultSwitch, timeoutSwitch, withoutVaultSwitch] arguments
  match given.positional with
  | [file, path] =>
    return .get (← pathOf file) path ((given.value? formatSwitch.name).getD "text")
      (given.value? defaultSwitch.name) (← Limits.ofGiven given)
  | _ => throw .misused

def readCheck (arguments : List String) : Except Refusal Command := do
  let given ← Given.read [] arguments
  match given.positional with
  | [] => throw .misused
  | files => return .check (← files.mapM pathOf)

/-- The command that arguments ask for, none if they are misused. Only the program's own name
stands before them. -/
def ofArguments (arguments : List String) : Option Command :=
  let command : Except Refusal Command := match arguments with
    | "resolve" :: rest => readResolve rest
    | "get" :: rest => readGet rest
    | "check" :: rest => readCheck rest
    | "--version" :: _ => .ok .version
    | "--help" :: _ | "help" :: _ => .ok .help
    | first :: _ =>
      match first.toList with
      | '-' :: 'V' :: _ => .ok .version
      | '-' :: 'h' :: _ => .ok .help
      | _ => .error .misused
    | [] => .error .misused
  match command with
  | .ok command => some command
  | .error .helpWanted => some .help
  | .error .misused => none

end Directives.Command
