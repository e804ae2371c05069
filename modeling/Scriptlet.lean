import Scriptlet.Cursor
import Scriptlet.Main
import Scriptlet.Proofs.Accounting
import Scriptlet.Proofs.EarliestError
import Scriptlet.Proofs.Carets
import Scriptlet.Proofs.Isolation
import Scriptlet.Proofs.RoundTrip
import Scriptlet.Proofs.Alike
import Scriptlet.Proofs.Operations
import Scriptlet.Proofs.Relexing
import Scriptlet.Proofs.Refusals
import Scriptlet.Proofs.BlankLines
import Scriptlet.Proofs.PrecedenceClimbing
import Scriptlet.Proofs.Heights
import Scriptlet.Proofs.UnclosedBraces
import Scriptlet.Proofs.Listings
import Scriptlet.Proofs.PrintedTrees
import Scriptlet.Proofs.Boundaries
