import Directives.Cancel.History
import Directives.Document.Yaml.Writer
import Directives.Load
import Directives.Main
import Directives.Tree.Agreement
import Directives.Proofs.Visiting
import Directives.Proofs.Stability
import Directives.Tree.Equality
import Directives.Proofs.Steady
import Directives.Proofs.Siblings
import Directives.Proofs.Blame
import Directives.Proofs.Stack
import Directives.Proofs.Ensured
import Directives.Proofs.Runaway
import Directives.Proofs.Leaves
import Directives.Proofs.Arrivals
import Directives.Proofs.Failures
import Directives.Proofs.Abreast
import Directives.Proofs.Limits
import Directives.Proofs.Origins
import Directives.Proofs.Inclusion
import Directives.Proofs.Spared
import Directives.Proofs.Cancellation
import Directives.Proofs.Locality
import Directives.Proofs.Fixpoint
import Directives.Proofs.Renewal
import Directives.Proofs.Secrets
import Directives.Proofs.Requests
import Directives.Proofs.Wire
import Directives.Proofs.Deadlines
import Directives.Proofs.Leases
import Directives.Proofs.JsonRoundTrip
import Directives.Proofs.Output
import Directives.Proofs.Peeling
import Directives.Proofs.Registration
import Directives.Proofs.Paths
import Directives.Proofs.Optional
import Directives.Proofs.Brackets
import Directives.Proofs.Lookups
import Directives.Proofs.ExitCodes
import Directives.Proofs.Chains
import Directives.Proofs.Spelling
import Directives.Proofs.Literals
import Directives.Proofs.NormalForm
import Directives.Proofs.Canonical
import Directives.Proofs.Families
import Directives.Proofs.Internal
import Directives.Directive.Grammar
import Directives.Proofs.Logins
