import Directives.Text.Utf8

/-! A tree of files, directories and symbolic links, and how a path text leads through it. -/
namespace Directives

/-- The names from the root down to a place. -/
abbrev Files.Place := List String

inductive Files.Node
  | file (octets : List UInt8)
  | directory
  | link (target : String)
  deriving DecidableEq

/-- All places but the root, which is always a directory, and the place that relative paths start
from. -/
structure Files where
  nodes : List (Files.Place × Files.Node) := []
  working : Files.Place := []
  deriving DecidableEq

inductive Files.Problem
  | notFound
  | notDirectory
  | isDirectory
  | tooManyLinks
  | nameTooLong
  | nulInPath
  | notText
  deriving DecidableEq, Repr

namespace Files

def Problem.message : Problem → String
  | notFound => "No such file or directory (os error 2)"
  | notDirectory => "Not a directory (os error 20)"
  | isDirectory => "Is a directory (os error 21)"
  | tooManyLinks => "Too many levels of symbolic links (os error 40)"
  | nameTooLong => "File name too long (os error 36)"
  | nulInPath => "file name contained an unexpected NUL byte"
  | notText => "stream did not contain valid UTF-8"

def node? (fs : Files) (place : Place) : Option Node :=
  if place.isEmpty then some .directory else fs.nodes.lookup place

def insert (fs : Files) (place : Place) (node : Node) : Files :=
  { fs with nodes := (place, node) :: fs.nodes.filter (·.1 ≠ place) }

def erase (fs : Files) (place : Place) : Files :=
  { fs with nodes := fs.nodes.filter fun entry => !place.isPrefixOf entry.1 }

def splitSlash : List Char → List (List Char)
  | [] => [[]]
  | c :: rest =>
    match c, splitSlash rest with
    | '/', parts => [] :: parts
    | c, part :: parts => (c :: part) :: parts
    | c, [] => [[c]]

/-- The names in a path text. A slash at the end asks for a directory, as a last `.` does. -/
def components (path : String) : List String :=
  let parts := (splitSlash path.toList).map String.ofList
  let names := parts.filter (· ≠ "")
  if parts.getLast? = some "" && parts.length ≠ 1 then names ++ ["."] else names

/-- Longest name of one entry, and longest path with its end mark, in octets. -/
def maxName : Nat := 255
def maxPath : Nat := 4096

def maxLinks : Nat := 40

inductive Target
  | found (place : Place) (node : Node)
  /-- Only the last name is missing. -/
  | absent (place : Place)
  deriving DecidableEq

/-- Follows names from a directory, through at most `links` symbolic links. -/
def walk (fs : Files) (links : Nat) (current : Place) : List String → Except Problem Target
  | [] => .ok (.found current .directory)
  | "." :: rest => walk fs links current rest
  | ".." :: rest => walk fs links current.dropLast rest
  | name :: rest =>
    if maxName < name.utf8ByteSize then .error .nameTooLong
    else
      let place := current ++ [name]
      match fs.node? place with
      | none => if rest.isEmpty then .ok (.absent place) else .error .notFound
      | some (.file octets) =>
        if rest.isEmpty then .ok (.found place (.file octets)) else .error .notDirectory
      | some .directory => walk fs links place rest
      | some (.link target) =>
        match links with
        | 0 => .error .tooManyLinks
        | links + 1 =>
          walk fs links (if target.startsWith "/" then [] else current)
            (components target ++ rest)
termination_by names => (links, names.length)

/-- Follows names from where a path text starts: the root if it begins with a slash. -/
def follow (fs : Files) (path : String) (names : List String) : Except Problem Target :=
  if path.contains '\x00' then .error .nulInPath
  else if path.isEmpty then .error .notFound
  else if maxPath ≤ path.utf8ByteSize then .error .nameTooLong
  else fs.walk maxLinks (if path.startsWith "/" then [] else fs.working) names

def locate (fs : Files) (path : String) : Except Problem Target := fs.follow path (components path)

/-- A path that does not begin with a slash is followed from the working directory. -/
theorem locate_relative {fs : Files} {path : String} (sound : path.contains '\x00' = false)
    (full : path.isEmpty = false) (short : path.utf8ByteSize < maxPath)
    (relative : path.startsWith "/" = false) :
    fs.locate path = fs.walk maxLinks fs.working (components path) := by
  rw [locate, follow, if_neg (by simp [sound]), if_neg (by simp [full]), if_neg (Nat.not_le.mpr short),
    if_neg (by simp [relative])]

def placeText (place : Place) : String :=
  if place.isEmpty then "/" else place.foldl (fun text name => text ++ "/" ++ name) ""

/-- The one path without links, `.` and `..` to what a path leads to. -/
def canonical? (fs : Files) (path : String) : Option String :=
  match fs.locate path with
  | .ok (.found place _) => some (placeText place)
  | _ => none

def octets (fs : Files) (path : String) : Except Problem (List UInt8) :=
  match fs.locate path with
  | .error problem => .error problem
  | .ok (.absent _) => .error .notFound
  | .ok (.found _ (.file octets)) => .ok octets
  | .ok (.found _ _) => .error .isDirectory

def read (fs : Files) (path : String) : Except Problem String :=
  match fs.octets path with
  | .error problem => .error problem
  | .ok octets =>
    match Text.ofUtf8? octets with
    | some text => .ok text
    | none => .error .notText

/-- A file in the working directory is read under its name. -/
theorem read_beside {fs : Files} {name text : String} (sound : name.contains '\x00' = false)
    (relative : name.startsWith "/" = false) (single : components name = [name])
    (proper : name ≠ "" ∧ name ≠ "." ∧ name ≠ "..") (short : name.utf8ByteSize ≤ maxName)
    (stands : fs.node? (fs.working ++ [name]) = some (.file (Text.toUtf8 text))) :
    fs.read name = .ok text := by
  obtain ⟨full, here, above⟩ := proper
  have brief : name.utf8ByteSize < maxPath := Nat.lt_of_le_of_lt short (by decide)
  have led : fs.walk maxLinks fs.working [name] =
      .ok (.found (fs.working ++ [name]) (.file (Text.toUtf8 text))) := by
    simp [walk, Nat.not_lt.mpr short, stands]
  rw [read, octets, locate_relative sound (by simpa using full) brief relative, single, led]
  dsimp only
  rw [Text.ofUtf8?_toUtf8]

/-- A file that a path leads to stands in the tree. -/
theorem node?_of_walk {fs : Files} {links : Nat} {current place : Place} {names : List String}
    {content : List UInt8}
    (found : fs.walk links current names = .ok (.found place (.file content))) :
    fs.node? place = some (.file content) := by
  fun_induction walk fs links current names with
  | case2 _ _ _ ih | case3 _ _ _ ih => exact ih found
  | case7 => simp_all
  | case9 | case11 => simp_all
  | _ => cases found

theorem locate_of_read {fs : Files} {path text : String} (done : fs.read path = .ok text) :
    ∃ place content, fs.locate path = .ok (.found place (.file content)) := by
  cases found : fs.octets path with
  | error problem => simp [read, found] at done
  | ok content =>
    simp only [octets] at found
    split at found
    · cases found
    · cases found
    · next place content located => exact ⟨place, content, located⟩
    · cases found

/-- A file that can be read stands in the tree and has a path without links. -/
theorem canonical?_of_read {fs : Files} {path text : String} (done : fs.read path = .ok text) :
    ∃ place content, fs.node? place = some (.file content) ∧
      fs.canonical? path = some (placeText place) := by
  obtain ⟨place, content, located⟩ := locate_of_read done
  refine ⟨place, content, ?_, by simp only [canonical?, located]⟩
  simp only [locate, follow] at located
  split at located
  · cases located
  · split at located
    · cases located
    · split at located
      · cases located
      · exact node?_of_walk located

/-- Replaces a file or makes a new one. A path that ends in a slash names no file, whatever it
leads to. -/
def write (fs : Files) (path : String) (text : String) : Except Problem Files :=
  if path.endsWith "/" then
    match fs.follow path ((components path).dropLast.dropLast) with
    | .error problem => .error problem
    | .ok (.found _ .directory) => .error .isDirectory
    | .ok (.found _ _) => .error .notDirectory
    | .ok (.absent _) => .error .notFound
  else
    match fs.locate path with
    | .error problem => .error problem
    | .ok (.absent place) | .ok (.found place (.file _)) =>
      .ok (fs.insert place (.file (Text.toUtf8 text)))
    | .ok (.found _ _) => .error .isDirectory

theorem node?_insert_self {fs : Files} {place : Place} (below : place.isEmpty = false) (node : Node) :
    (fs.insert place node).node? place = some node := by
  simp [node?, insert, below]

theorem node?_insert_other (fs : Files) {place other : Place} (apart : other ≠ place) (node : Node) :
    (fs.insert place node).node? other = fs.node? other := by
  have kept : (fs.nodes.filter (·.1 ≠ place)).lookup other = fs.nodes.lookup other := by
    induction fs.nodes with
    | nil => rfl
    | cons entry rest ih =>
      obtain ⟨key, value⟩ := entry
      by_cases here : key = place
      · have differs : (other == key) = false := by simpa [here] using apart
        rw [List.filter_cons_of_neg (by simpa using here), ih, List.lookup_cons, differs]
      · rw [List.filter_cons_of_pos (by simpa using here), List.lookup_cons, List.lookup_cons, ih]
  have differs : (other == place) = false := by simpa using apart
  simp only [node?, insert, List.lookup_cons, differs, kept]

/-- Where a path leads to nothing there is nothing. -/
theorem node?_of_walk_absent {fs : Files} {links : Nat} {current place : Place} {names : List String}
    (led : fs.walk links current names = .ok (.absent place)) : fs.node? place = none := by
  fun_induction walk fs links current names with
  | case2 _ _ _ ih | case3 _ _ _ ih => exact ih led
  | case5 => simp_all
  | case9 | case11 => simp_all
  | _ => cases led

/-- A path that leads to a file, or to a place where there is nothing yet, leads to the file that is put
there. -/
theorem walk_insert {fs : Files} {links : Nat} {current place : Place} {names : List String}
    {target : Target} (led : fs.walk links current names = .ok target)
    (free : target = .absent place ∨ ∃ old, target = .found place (.file old)) (content : List UInt8) :
    (fs.insert place (.file content)).walk links current names = .ok (.found place (.file content)) := by
  have vacant : fs.node? place = none ∨ ∃ old, fs.node? place = some (.file old) := by
    rcases free with rfl | ⟨old, rfl⟩
    · exact .inl (node?_of_walk_absent led)
    · exact .inr ⟨old, node?_of_walk led⟩
  have kept {other : Place} {node : Node} (here : fs.node? other = some node)
      (different : ∀ old, node ≠ .file old) : (fs.insert place (.file content)).node? other = some node := by
    rw [node?_insert_other, here]
    rintro rfl
    rcases vacant with missing | ⟨old, file⟩
    · cases missing.symm.trans here
    · exact different old (Option.some.inj (here.symm.trans file))
  have below (names : Place) (name : String) : (names ++ [name]).isEmpty = false := by simp
  fun_induction walk fs links current names with
  | case1 =>
    rcases free with rfl | ⟨old, rfl⟩
    · cases led
    · cases led
  | case2 links current rest ih =>
    rw [walk]
    exact ih led
  | case3 links current rest ih =>
    rw [walk]
    exact ih led
  | case5 links current name rest _ _ short _ _ last =>
    rcases free with rfl | ⟨old, rfl⟩
    · obtain rfl : current ++ [name] = place := Target.absent.inj (Except.ok.inj led)
      simp [walk, short, last, node?_insert_self (below current name)]
    · cases Except.ok.inj led
  | case7 links current name rest _ _ short _ _ _ last =>
    rcases free with rfl | ⟨old, rfl⟩
    · cases Except.ok.inj led
    · obtain rfl : current ++ [name] = place := (Target.found.inj (Except.ok.inj led)).1
      simp [walk, short, last, node?_insert_self (below current name)]
  | case9 links current name rest _ _ short place' directory ih =>
    have same : (fs.insert place (.file content)).node? (current ++ [name]) = some .directory :=
      kept directory fun _ same => nomatch same
    simp only [walk, short, if_false, same]
    exact ih led
  | case11 current name rest _ _ short place' target link links ih =>
    have same : (fs.insert place (.file content)).node? (current ++ [name]) = some (.link target) :=
      kept link fun _ same => nomatch same
    simp only [walk, short, if_false, same]
    exact ih led
  | _ => cases led

/-- What is written to a path is what stands there afterwards. -/
theorem octets_of_write {fs after : Files} {path text : String} (done : fs.write path text = .ok after) :
    after.octets path = .ok (Text.toUtf8 text) := by
  rw [write] at done
  split at done
  · split at done <;> cases done
  obtain ⟨place, target, led, free, rfl⟩ : ∃ place target, fs.locate path = .ok target ∧
      (target = .absent place ∨ ∃ old, target = .found place (.file old)) ∧
      fs.insert place (.file (Text.toUtf8 text)) = after := by
    split at done
    · cases done
    · next place led => exact ⟨place, _, led, .inl rfl, Except.ok.inj done⟩
    · next place old led => exact ⟨place, _, led, .inr ⟨old, rfl⟩, Except.ok.inj done⟩
    · cases done
  have again : (fs.insert place (.file (Text.toUtf8 text))).locate path =
      .ok (.found place (.file (Text.toUtf8 text))) := by
    simp only [locate, follow] at led ⊢
    split at led
    · cases led
    · next printed =>
      split at led
      · cases led
      · next full =>
        split at led
        · cases led
        · next short =>
          rw [if_neg printed, if_neg full, if_neg short]
          exact walk_insert led free _
  simp only [octets, again]

end Files
end Directives
