import Manuscript.Cli.Program
import Manuscript.Main
import Manuscript.Proofs.Conversion.Images
import Manuscript.Proofs.Layout.Leaves
import Manuscript.Proofs.Layout.Footnotes
import Manuscript.Proofs.Conversion.Footnotes
import Manuscript.Proofs.Conversion.References
import Manuscript.Proofs.Layout.Blocks
import Manuscript.Proofs.Json.Records
import Manuscript.Proofs.Tree.Json
import Manuscript.Proofs.Json.Compact
import Manuscript.Proofs.Base64
import Manuscript.Proofs.Conversion.Progress
import Manuscript.Proofs.Document.Json
import Manuscript.Proofs.Document.Images
import Manuscript.Proofs.Conversion.Output
import Manuscript.Proofs.Conversion.Discarded
import Manuscript.Proofs.Tree.Depth
import Manuscript.Proofs.Tree.Texts
import Manuscript.Proofs.Cli.Outcomes
import Manuscript.Proofs.Layout.Siblings
import Manuscript.Proofs.Layout.Wrappers
import Manuscript.Proofs.Layout.Boxes
import Manuscript.Proofs.Resolution.InTurn
import Manuscript.Proofs.Latex
import Manuscript.Proofs.Conversion.Equations
import Manuscript.Proofs.Resolution.Schedules
import Manuscript.Proofs.Resolution.Race
import Manuscript.Proofs.Layout.Grouping
import Manuscript.Proofs.Resolution.Payloads
import Manuscript.Proofs.Resolution.Shown
import Manuscript.Proofs.Json.Heeded
import Manuscript.Proofs.Json.Sorted
import Manuscript.Proofs.Tree.Contract
import Manuscript.Proofs.Tree.Stripped
