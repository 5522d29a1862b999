import Directives.Builtin
import Directives.Decoder

/-! Loading: choosing the configuration file, reading it, and resolving or decoding what it
holds. -/
namespace Directives.Load

def pathVariable : String := "CONFIG_PATH"

/-- The path to load: another one that is given and not empty goes before the first. -/
def choosePath (path : String) (other : Option String) : String :=
  match other with
  | some other => if other.isEmpty then path else other
  | none => path

/-- The path to load after a look at the environment. -/
def configPath (environment : Environment) (path : String) : String :=
  choosePath path (environment.strict? pathVariable)

def readTree (files : Files) (path : String) : Except Fault Tree :=
  match Source.read files path with
  | .ok t => .ok t
  | .error problem => .error (Builtin.fileFault path problem)

variable {σ : Type}

def load (registry : Registry σ) (context : Context σ) (maxDepth : Nat) (path : String) :
    Run σ Fault Tree := do
  Run.record (.environment pathVariable)
  let path ← Run.read fun s => configPath (context.world s).environment path
  Run.record (.file path)
  let raw ← Run.read fun s => readTree (context.world s).files path
  (← Run.ofExcept raw).resolve registry context maxDepth

def loadAs {α : Type} (decoder : Decoder α) (registry : Registry σ) (context : Context σ)
    (maxDepth : Nat) (path : String) : Run σ Fault α := do
  let t ← load registry context maxDepth path
  Run.ofExcept (t.decode decoder)

end Directives.Load
