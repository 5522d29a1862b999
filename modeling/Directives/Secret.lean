import Directives.Tree

/-! References to secrets: a path below a mount, the mount left out where it is the store's own. -/
namespace Directives

structure SecretRef where
  mount : Option String
  path : String
  deriving DecidableEq, Repr

namespace SecretRef

def splitAtSlash? (text : List Char) : Option (List Char × List Char) :=
  match text.dropWhile (· ≠ '/') with
  | [] => none
  | _ :: rest => some (text.takeWhile (· ≠ '/'), rest)

/-- Reads `/mount/path`. Without the leading slash, or where no mount stands behind it, all but
that slash is the path. -/
def ofText (text : String) : SecretRef :=
  match text.toList with
  | '/' :: rest =>
    match splitAtSlash? rest with
    | some (first :: mount, path) => ⟨some (String.ofList (first :: mount)), String.ofList path⟩
    | _ => ⟨none, String.ofList rest⟩
  | path => ⟨none, String.ofList path⟩

/-- The name under which circular references to the secret are found. -/
def source (r : SecretRef) : String :=
  match r.mount with
  | some mount => s!"vault:{mount}/{r.path}"
  | none => s!"vault:{r.path}"

end SecretRef
end Directives
