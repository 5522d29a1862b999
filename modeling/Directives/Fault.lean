import Directives.Location

/-! Failures of resolution: what went wrong, where in the tree, in which directive and coercion, and
what to do about it. -/
namespace Directives

inductive Fault.Kind
  /-- A required environment variable is unset or empty. -/
  | missingInput (name : String)
  /-- A file or a secret could not be read. -/
  | access (resource : String)
  /-- A text does not have the form it should. -/
  | parse
  /-- A coercion was given a value of the wrong kind. -/
  | typeCoercion
  /-- A directive needs a secret store and there is none. -/
  | noProvider (token : String)
  /-- A provider of values refused. -/
  | provider (name message : String)
  | cancelled
  /-- A directive leads back to a source that it came from. -/
  | circularReference
  | depthExceeded (limit : Nat)
  /-- Two resolvers or two coercions have one name. -/
  | alreadyRegistered (name : String)
  /-- A state that should be impossible. -/
  | internal
  deriving DecidableEq, Repr

structure Fault where
  kind : Fault.Kind
  location : Location := []
  directive : Option String := none
  coercion : Option String := none
  help : Option String := none
  cause : Option String := none
  deriving DecidableEq, Repr

namespace Fault

def missingVariable (name : String) : Fault :=
  { kind := .missingInput name
    help := s!"Set the {name} environment variable, or use OENV->{name} if it is optional" }

def access (resource cause : String) : Fault := { kind := .access resource, cause := cause }

def parse (cause : String) : Fault := { kind := .parse, cause := cause }

def typeCoercion (expected got : String) : Fault :=
  { kind := .typeCoercion
    help := s!"Ensure the value can be converted to {expected}"
    cause := s!"Got: {got}" }

def noProvider (token : String) : Fault :=
  { kind := .noProvider token
    help := s!"Configure a secret store on the interpolator before using {token} directives" }

def provider (name message : String) : Fault := { kind := .provider name message }

def cancelled (reason : String) : Fault := { kind := .cancelled, cause := reason }

/-- The chain runs from the outermost source to the one that came up again. -/
def circularReference (chain : List String) : Fault :=
  { kind := .circularReference
    help := "Break the cycle by removing one of the directives"
    cause := "Chain: " ++ " → ".intercalate chain }

def depthExceeded (limit : Nat) : Fault :=
  { kind := .depthExceeded limit, help := "Reduce directive nesting or raise max_depth" }

def alreadyRegistered (name : String) : Fault :=
  { kind := .alreadyRegistered name, help := s!"Register '{name}' only once per registry" }

def internal (cause : String) : Fault :=
  { kind := .internal
    help := "This is likely a bug in arrowconf. Please report it."
    cause := cause }

def under (step : Step) (f : Fault) : Fault := { f with location := step :: f.location }

/-- Records the failing directive unless one further in is known. -/
def inDirective (raw : String) (f : Fault) : Fault :=
  { f with directive := f.directive.or (some raw) }

/-- Records the failing coercion unless one further in is known. -/
def inCoercion (name : String) (f : Fault) : Fault :=
  { f with coercion := f.coercion.or (some name) }

def withHelp (help : String) (f : Fault) : Fault := { f with help := some help }

/-- The text of the failing place, if it is not the root. -/
def path (f : Fault) : Option String := f.location.render

/-- What went wrong, without the place, the directive and the coercion. -/
def bare (f : Fault) : Fault := { f with location := [], directive := none, coercion := none }

@[simp] theorem bare_under (step : Step) (f : Fault) : (f.under step).bare = f.bare := rfl

@[simp] theorem bare_inDirective (raw : String) (f : Fault) : (f.inDirective raw).bare = f.bare := rfl

@[simp] theorem bare_inCoercion (name : String) (f : Fault) : (f.inCoercion name).bare = f.bare := rfl

def isCancelled (f : Fault) : Bool := f.kind == .cancelled

def headline : Kind → String
  | .missingInput name => s!"Required environment variable not set: {name}"
  | .access resource => s!"I/O error: {resource}"
  | .parse => "Parse error"
  | .typeCoercion => "Type coercion failed"
  | .noProvider token => s!"No secret store configured for {token}"
  | .provider name message => s!"Provider '{name}' error: {message}"
  | .cancelled => "Resolution cancelled"
  | .circularReference => "Circular reference detected"
  | .depthExceeded limit => s!"Directive nesting exceeded {limit} levels"
  | .alreadyRegistered name => s!"Resolver '{name}' is already registered"
  | .internal => "Internal error"

/-- The whole message: the headline, and a line for each thing that is known. -/
def message (f : Fault) : String :=
  let line (label : String) : Option String → String
    | some text => "\n  " ++ label ++ text
    | none => ""
  headline f.kind ++ line "Path: " f.path ++ line "Directive: " f.directive ++
    line "Suffix: ::" f.coercion ++ line "" f.cause ++ line "Help: " f.help

end Fault
end Directives
