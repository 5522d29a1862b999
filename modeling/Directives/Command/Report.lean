import Directives.Command.Arguments
import Directives.Rendering
import Directives.Tree.Lookup
import Directives.Vault.Session

/-! What commands do: what they show on which stream, how they end, and which file they write. The
first stage that fails decides; nothing is shown or written before all stages are through. -/
namespace Directives.Command

/-- What a command shows, and the code it ends with. -/
structure Report where
  code : Nat := 0
  stdout : String := ""
  stderr : String := ""
  deriving DecidableEq, Repr

namespace Report

/-- Directives could not be resolved, or nothing is found at a path. -/
def unresolved : Nat := 1

/-- Arguments, files or set-up are at fault. -/
def unprepared : Nat := 2

/-- The process was aborted; this is the code that a shell gives for it. -/
def abort : Nat := 134

def failed (code : Nat) (text : String) : Report := { code, stderr := text ++ "\n" }

def misused (usage : String) : Report := { code := unprepared, stderr := usage }

def setupFailed (fault : Fault) : Report := failed unprepared s!"Error: {fault.message}"

def resolutionFailed (fault : Fault) : Report :=
  failed unresolved s!"✗ Resolution failed\n\n{fault.message}"

def unsupportedFormat (format : String) : Report :=
  failed unprepared s!"Error: Unsupported format: {format}. Use text, yaml, or json."

def writingFailed (problem : String) : Report :=
  failed unprepared s!"Error writing file: {problem}"

def aborted : Report := failed abort "overflow when adding duration to instant"

def written (path : String) : Report := { stderr := s!"✓ Wrote to {path}\n" }

end Report

/-- What a command has to hand out once all is well. -/
inductive Output
  | shown (text : String)
  | saved (path text : String)
  deriving DecidableEq, Repr

/-- What a command can reach. -/
structure Machine (σ : Type) where
  world : σ → World
  putFiles : Files → σ → σ
  moment : σ → Cancel.Moment
  link : Link σ
  /-- The instant from which time limits count. -/
  start : Nat := 0

variable {σ : Type}

def Machine.context (m : Machine σ) (limits : Limits) : Context σ where
  world := m.world
  moment := m.moment
  token := { family := 0, deadline := limits.timeout.map fun d => m.start + d.toNanos }

/-- The time limit, if there is one, ends at an instant that the clock can tell. -/
def Machine.InTime (m : Machine σ) (limits : Limits) : Prop :=
  ∀ d ∈ limits.timeout, m.start + d.toNanos ≤ Cancel.lastInstant

instance (m : Machine σ) (limits : Limits) : Decidable (m.InTime limits) :=
  inferInstanceAs (Decidable (∀ d ∈ limits.timeout, m.start + d.toNanos ≤ Cancel.lastInstant))

/-- Adds Vault to a context, if the environment names credentials and nothing forbids it. -/
def attachVault (m : Machine σ) (limits : Limits) (context : Context σ) :
    Run σ Fault (Context σ) := do
  if limits.withoutVault then return context
  Run.record (.environment Vault.credentialsVariable)
  let named ← Run.read fun s => (m.world s).environment.octets? Vault.credentialsVariable
  match named with
  | none => return context
  | some _ =>
    let session ← Vault.Session.ofEnvironment m.link context
    return { context with secrets := some (session.client.store m.link m.moment) }

def resolveFile (m : Machine σ) (file : String) (limits : Limits) : Run σ Report Tree := do
  Run.record (.file file)
  let raw ← Run.read fun s => Load.readTree (m.world s).files file
  let raw ← (Run.ofExcept raw).mapError Report.setupFailed
  if m.InTime limits then
    let context ← (attachVault m limits (m.context limits)).mapError Report.setupFailed
    (raw.resolve Builtin.registry context defaultMaxDepth).mapError Report.resolutionFailed
  else Run.fail .aborted

def rendered (format : String) (t : Tree) : Except Report String :=
  match Rendering.ofName? format with
  | some rendering => .ok (rendering.render t)
  | none => .error (.unsupportedFormat format)

def prepareResolve (m : Machine σ) (file format : String) (output : Option String)
    (limits : Limits) : Run σ Report Output := do
  if format = "text" then
    Run.fail (.failed Report.unprepared "Error: resolve supports yaml or json")
  else
    let t ← resolveFile m file limits
    let text ← Run.ofExcept (rendered format t.spellOut)
    match output with
    | some path => return .saved path text
    | none => return .shown text

def prepareGet (m : Machine σ) (file path format : String) (default : Option String)
    (limits : Limits) : Run σ Report Output := do
  let t ← resolveFile m file limits
  match t.find path, default with
  | .ok found, _ => return .shown (← Run.ofExcept (rendered format found.spellOut))
  | .error _, some default => return .shown (default ++ "\n")
  | .error _, none => Run.fail (.failed Report.unresolved s!"Error: Path '{path}' not found")

def checkFile (files : Files) (file : String) : Report :=
  match Load.readTree files file with
  | .ok t => { stdout := s!"✓ {file}: valid ({t.kindName})\n" }
  | .error fault => .failed Report.unprepared s!"✗ {file}: {fault.message}"

/-- One report after another; it is as bad as the worse of the two. -/
def Report.append (first second : Report) : Report where
  code := max first.code second.code
  stdout := first.stdout ++ second.stdout
  stderr := first.stderr ++ second.stderr

def checkFiles (files : Files) (paths : List String) : Report :=
  paths.foldl (fun report path => report.append (checkFile files path)) {}

def versionText : String := "arrowconf 0.3.0\n"

def usage : String :=
  "Usage: arrowconf <COMMAND>\n\n" ++
  "  resolve <FILE> [-f yaml|json] [-o <PATH>] [--timeout <TIME>] [--no-vault]\n" ++
  "  get <FILE> <PATH> [-f text|json|yaml] [-d <VALUE>] [--timeout <TIME>] [--no-vault]\n" ++
  "  check <FILE>...\n"

/-- All of a command but the writing of a file; it ends with a report unless there is something to
hand out. -/
def prepare (m : Machine σ) : Command → Run σ Report Output
  | .resolve file format output limits => prepareResolve m file format output limits
  | .get file path format default limits => prepareGet m file path format default limits
  | .check paths => do
    paths.forM fun path => Run.record (.file path)
    let report ← Run.read fun s => checkFiles (m.world s).files paths
    if report.code = 0 then return .shown report.stdout else Run.fail report
  | .version => return .shown versionText
  | .help => return .shown usage

def finish (m : Machine σ) : Output → Run σ Report Report
  | .shown text => return { stdout := text }
  | .saved path text => do
    match ← Run.read fun s => (m.world s).files.write path text with
    | .ok files =>
      Run.change (m.putFiles files)
      return .written path
    | .error problem => Run.fail (.writingFailed problem.message)

def execute (m : Machine σ) (command : Command) (s : σ) : Report × σ :=
  let answer := ((prepare m command).bind (finish m)) s
  match answer.outcome with
  | .ok report | .error report => (report, answer.state)

end Directives.Command
