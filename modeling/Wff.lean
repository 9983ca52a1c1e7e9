import Wff.Character.Classes
import Wff.Check.Run
import Wff.Connective
import Wff.Fault.Report
import Wff.Formula.Chain
import Wff.Formula.Listing
import Wff.Formula.Traversal
import Wff.Formula.Written
import Wff.Grammar
import Wff.Juxtaposition
import Wff.Main
import Wff.Proofs.Accounting
import Wff.Proofs.Adjacency
import Wff.Proofs.Agreement
import Wff.Proofs.Aliases
import Wff.Proofs.Alignment
import Wff.Proofs.Alike
import Wff.Proofs.Arguments
import Wff.Proofs.Balance
import Wff.Proofs.Blame
import Wff.Proofs.Chains
import Wff.Proofs.Characters
import Wff.Proofs.Composition
import Wff.Proofs.Concatenation
import Wff.Proofs.Copying
import Wff.Proofs.Derivation
import Wff.Proofs.Detection
import Wff.Proofs.Idempotence
import Wff.Proofs.Identity
import Wff.Proofs.Indexing
import Wff.Proofs.InputLines
import Wff.Proofs.Limit
import Wff.Proofs.LineByLine
import Wff.Proofs.Locating
import Wff.Proofs.LongestMatch
import Wff.Proofs.Marks
import Wff.Proofs.Moves
import Wff.Proofs.Nesting
import Wff.Proofs.Pending
import Wff.Proofs.Places
import Wff.Proofs.Progress
import Wff.Proofs.Reaching
import Wff.Proofs.Recursion
import Wff.Proofs.Relabelling
import Wff.Proofs.Respelling
import Wff.Proofs.RoundTrip
import Wff.Proofs.Running
import Wff.Proofs.Scanning
import Wff.Proofs.Segmentation
import Wff.Proofs.Spacing
import Wff.Proofs.Spelling
import Wff.Proofs.Splitting
import Wff.Proofs.Standard
import Wff.Proofs.Substitution
import Wff.Proofs.Tiling
import Wff.Proofs.Tracing
import Wff.Proofs.TreeListing
import Wff.Proofs.TruthValues
import Wff.Proofs.Visiting
import Wff.Proofs.WrittenForm
import Wff.Quoted
import Wff.Reader.Cursor
import Wff.Reader.Pointer
import Wff.Symbol.Standard
import Wff.Text
import Wff.Token.Brackets
import Wff.Token.Lexeme
import Wff.Token.Listing
