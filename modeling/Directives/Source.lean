import Directives.Decoder
import Directives.Document.Json.Reader
import Directives.Document.Yaml.Reader
import Directives.Files

/-! Files as configuration trees. The ending of the path says how the content is written; a file
with another ending is one text. -/
namespace Directives.Source

inductive Format
  | yaml
  | json
  | text
  deriving DecidableEq, Repr

/-- What follows the last point of a name, unless the point is its first character. -/
def ending? (name : List Char) : Option (List Char) :=
  let reversed := name.reverse
  match reversed.dropWhile (· ≠ '.') with
  | [] | ['.'] => none
  | _ :: _ => some (reversed.takeWhile (· ≠ '.')).reverse

/-- The last name in a path; none where that leads upwards. -/
def fileName? (path : String) : Option (List Char) :=
  let names := (Files.splitSlash path.toList).filter fun name => name ≠ [] && name ≠ ['.']
  names.getLast?.filter (· ≠ ['.', '.'])

def Format.ofPath (path : String) : Format :=
  match ((fileName? path).bind ending?).map String.ofList with
  | some "yaml" | some "yml" => .yaml
  | some "json" => .json
  | _ => .text

inductive Problem
  | unreadable (problem : Files.Problem)
  | yaml (problem : Document.Yaml.Problem)
  | json
  /-- The content is well written, and yet no configuration value. -/
  | shape (format : Format) (mismatch : Mismatch)
  deriving DecidableEq, Repr

namespace Problem

def message : Problem → String
  | unreadable problem => s!"read failed: {problem.message}"
  | yaml problem => s!"invalid YAML: {problem.message}"
  | json => "invalid JSON: not a JSON text"
  | shape .json mismatch => s!"invalid JSON: {mismatch.message}"
  | shape _ mismatch => s!"invalid YAML: {mismatch.message}"

def isNotFound : Problem → Bool
  | unreadable problem => problem = .notFound
  | _ => false

end Problem

def Format.decode (format : Format) (content : String) : Except Problem Tree :=
  match format with
  | .yaml =>
    match Document.Yaml.read content with
    | .ok d => (Decoder.tree d).mapError (.shape .yaml)
    | .error problem => .error (.yaml problem)
  | .json =>
    match Document.Json.read content with
    | some d => (Decoder.tree d).mapError (.shape .json)
    | none => .error .json
  | .text => .ok (.text content)

/-- Whatever is well written is a configuration value. -/
theorem Format.tree_mapError (format : Format) (d : Document) :
    (Decoder.tree d).mapError (.shape format) = (.ok d.toTree : Except Problem Tree) := by
  rw [Decoder.tree_eq_toTree]
  rfl

def read (files : Files) (path : String) : Except Problem Tree :=
  match files.read path with
  | .ok content => (Format.ofPath path).decode content
  | .error problem => .error (.unreadable problem)

/-- The text of a file is decoded as its path says. -/
theorem read_of_text {files : Files} {path text : String} (found : files.read path = .ok text) :
    read files path = (Format.ofPath path).decode text := by
  rw [read, found]

/-- A file that gives a tree stands in the files and has a path without links. -/
theorem canonical?_of_read {files : Files} {path : String} {t : Tree}
    (done : read files path = .ok t) :
    ∃ place content, files.node? place = some (.file content) ∧
      files.canonical? path = some (Files.placeText place) := by
  cases found : files.read path with
  | error problem => simp [read, found] at done
  | ok text => exact Files.canonical?_of_read found

end Directives.Source
