import Directives.Load

/-! Credentials for Vault, read from a configuration file in which secrets cannot be used yet. -/
namespace Directives.Vault

structure AppRole where
  roleId : String := ""
  secretId : String := ""
  deriving DecidableEq, Repr

structure Credentials where
  host : String
  method : String := ""
  role : AppRole := {}
  deriving DecidableEq, Repr

def AppRole.record : Decoder.Record :=
  .named "AppRoleConfig" [.required "role_id" Decoder.text, .required "secret_id" Decoder.text]

def AppRole.decoder : Decoder AppRole := fun d => do
  let selected ← AppRole.record.select d
  return {
    roleId := ← Decoder.value selected "role_id" Decoder.text
    secretId := ← Decoder.value selected "secret_id" Decoder.text }

namespace Credentials

/-- Only the host is required. -/
def record : Decoder.Record :=
  .named "Creds" [.required "host" Decoder.text, .defaulted "method" Decoder.text,
    .defaulted "parameters" AppRole.decoder]

def decoder : Decoder Credentials := fun d => do
  let selected ← record.select d
  return {
    host := ← Decoder.value selected "host" Decoder.text
    method := ← Decoder.valueOr selected "method" Decoder.text ""
    role := ← Decoder.valueOr selected "parameters" AppRole.decoder {} }

/-- The credentials in a file, resolved without a secret store. -/
def load {σ : Type} (context : Context σ) (path : String) : Run σ Fault Credentials := do
  Run.record (.file path)
  let raw ← Run.read fun s => Load.readTree (context.world s).files path
  let resolved ← (← Run.ofExcept raw).resolve Builtin.registry { context with secrets := none }
    defaultMaxDepth
  Run.ofExcept (resolved.decode decoder)

end Credentials
end Directives.Vault
