import Directives.Builtin.Coercions
import Directives.Builtin.Resolvers
import Directives.Expansion

/-! The registry that programs start from. -/
namespace Directives.Builtin
variable {σ : Type}

/-- The resolvers and coercions that every program has. -/
def registry : Registry σ where
  resolvers := resolvers
  coercions := coercions
  tokens_nodup := by simp [resolvers, environmentResolver, optionalEnvironmentResolver,
    fileResolver, optionalFileResolver, secretResolver, envToken, optionalEnvToken, fileToken,
    optionalFileToken, secretToken]
  names_nodup := by simp [coercions, integerName, durationName]

end Directives.Builtin
