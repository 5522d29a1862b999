import Directives.Command.Report
import Directives.Network.Isolated

/-! The program. A command is run on what is known of the environment and of the files; whatever it
asked for and is not known yet is looked up, and the command is run again. -/
namespace Directives.Program

structure Known where
  world : World := {}
  now : Nat := 0
  names : List String := []
  paths : List String := []

/-- The command's view of what is known. -/
def machine (start : Nat) : Command.Machine Known where
  world := Known.world
  putFiles files k := { k with world := { k.world with files } }
  moment k := { now := k.now }
  link := Network.isolated
  start

def Known.withVariable (k : Known) (name : String) : IO Known := do
  let names := name :: k.names
  match ← IO.getEnv name with
  | some value =>
    let environment := k.world.environment.set name (Text.toUtf8 value)
    return { k with names, world := { k.world with environment } }
  | none => return { k with names }

/-- Looks up what stands along a path, through links. -/
partial def lookAlong (files : Files) (current : Files.Place) : List String → IO Files
  | [] => return files
  | "." :: rest => lookAlong files current rest
  | ".." :: rest => lookAlong files current.dropLast rest
  | name :: rest => do
    let place := current ++ [name]
    let text := Files.placeText place
    try
      let real ← IO.FS.realPath text
      if real.toString ≠ text then
        let files := files.insert place (.link real.toString)
        lookAlong files [] (Files.components real.toString ++ rest)
      else if ← real.isDir then lookAlong (files.insert place .directory) place rest
      else return files.insert place (.file (← IO.FS.readBinFile real).toList)
    catch _ => return files

def Known.withPath (k : Known) (path : String) : IO Known := do
  let start := if path.startsWith "/" then [] else k.world.files.working
  let files ← lookAlong k.world.files start (Files.components path)
  return { k with paths := path :: k.paths, world := { k.world with files } }

/-- Looks up what a call asks for, unless that was done before. -/
def Known.withCall (k : Known) : Call → IO Known
  | .environment name => if name ∈ k.names then return k else k.withVariable name
  | .file path => if path ∈ k.paths then return k else k.withPath path
  | _ => return k

partial def prepare (start : Nat) (command : Command) (k : Known) :
    IO (Except Command.Report Command.Output × Known) := do
  let k := { k with now := ← IO.monoNanosNow }
  let answer := Command.prepare (machine start) command k
  let more ← answer.calls.foldlM Known.withCall k
  if more.names.length = k.names.length && more.paths.length = k.paths.length then
    return (answer.outcome, k)
  else prepare start command more

/-- Writes a file, if nothing that is known stands in the way. -/
def save (k : Known) (path text : String) : IO Command.Report := do
  match (← k.withPath path).world.files.write path text with
  | .error problem => return .writingFailed problem.message
  | .ok _ =>
    try
      IO.FS.writeFile path text
      return .written path
    catch problem => return .writingFailed problem.toString

def run (arguments : List String) : IO Command.Report := do
  match Command.ofArguments arguments with
  | none => return .misused Command.usage
  | some command =>
    let working := Files.components (← IO.currentDir).toString
    let known ← lookAlong { working } [] working
    match ← prepare (← IO.monoNanosNow) command { world := { files := known } } with
    | (.ok (.shown text), _) => return { stdout := text }
    | (.ok (.saved path text), k) => save k path text
    | (.error report, _) => return report

end Directives.Program

def main (arguments : List String) : IO UInt32 := do
  let report ← Directives.Program.run arguments
  IO.print report.stdout
  IO.eprint report.stderr
  return report.code.toUInt32
