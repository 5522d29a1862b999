import Directives.Environment
import Directives.Files

/-! What resolution can see of its surroundings. -/
namespace Directives

structure World where
  environment : Environment := {}
  files : Files := {}
  deriving DecidableEq

end Directives
