import Directives.Fault

/-! What can go wrong with Vault, and how it is reported. -/
namespace Directives.Vault

/-- The one way to log in. -/
def appRole : String := "approle"

inductive Problem
  /-- The credentials ask for a way to log in that there is not. -/
  | unsupportedMethod (method : String)
  | status (url : String) (code : Nat)
  | timeout (url : String)
  | transport (url message : String)
  | malformed (url message : String)
  deriving DecidableEq, Repr

namespace Problem

def message : Problem → String
  | unsupportedMethod method =>
    s!"unsupported auth method '{method}', at least one auth method should be specified " ++
      s!"({appRole})"
  | status url code => s!"{url}: HTTP {code}"
  | timeout url => s!"{url}: request timed out"
  | transport url message => s!"{url}: {message}"
  | malformed url message => s!"{url}: malformed response: {message}"

def isNotFound : Problem → Bool
  | status _ 404 => true
  | _ => false

def isTimeout : Problem → Bool
  | timeout _ => true
  | _ => false

def readHelp : Problem → Option String
  | status _ 404 =>
    some "Check the secret path and mount (use VAULT->/mount/path for a non-default mount)"
  | status _ 403 => some "The Vault token's policy does not allow reading this path"
  | _ => none

def readFault (resource : String) (p : Problem) : Fault :=
  { Fault.access resource p.message with help := p.readHelp }

def fault (p : Problem) : Fault := .provider "vault" p.message

end Problem
end Directives.Vault
