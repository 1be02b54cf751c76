import FrontEnd.Diagnostic.Report
import FrontEnd.Parse.Program
import FrontEnd.Proofs.Agreement
import FrontEnd.Proofs.Blame
import FrontEnd.Proofs.Building
import FrontEnd.Proofs.Ceiling
import FrontEnd.Proofs.Concatenation
import FrontEnd.Proofs.Depth
import FrontEnd.Proofs.Diagnostics
import FrontEnd.Proofs.Excerpt
import FrontEnd.Proofs.Faults
import FrontEnd.Proofs.Layout
import FrontEnd.Proofs.LineFeeds
import FrontEnd.Proofs.Nesting
import FrontEnd.Proofs.Order
import FrontEnd.Proofs.Places
import FrontEnd.Proofs.Precedence
import FrontEnd.Proofs.Recovery
import FrontEnd.Proofs.Reports
import FrontEnd.Proofs.RoundTrip
import FrontEnd.Proofs.Unambiguous
import FrontEnd.Proofs.Window
import FrontEnd.Session
import FrontEnd.Tree.Listing
