import Constify.Main
import Constify.Proofs.Text.Occurrence
import Constify.Proofs.Text.Split
import Constify.Proofs.Text.Lines
import Constify.Proofs.Text.ByteOrder
import Constify.Proofs.Substitution.Shape
import Constify.Proofs.Substitution.Idempotence
import Constify.Proofs.Substitution.Lines
import Constify.Proofs.Import.Insertion
import Constify.Proofs.Revision
import Constify.Proofs.Patch.Apply
import Constify.Proofs.Tree.Map
import Constify.Proofs.Tree.Access
import Constify.Proofs.Tree.WellFormed
import Constify.Proofs.Tree.Below
import Constify.Proofs.Selection
import Constify.Proofs.Run.Exec
import Constify.Proofs.Run.Candidates
import Constify.Proofs.Run.Sweep
import Constify.Proofs.Run.Effect
import Constify.Proofs.Run.Rerun
import Constify.Proofs.Run.DryRun
import Constify.Proofs.Text.Exclusive
import Constify.Proofs.Substitution.Scan
import Constify.Proofs.Substitution.Simultaneous
import Constify.Proofs.Identifier.Token
import Constify.Proofs.Substitution.Mention
import Constify.Proofs.Substitution.Counts
import Constify.Proofs.Substitution.Reference
import Constify.Proofs.Import.Presence
import Constify.Proofs.Run.UsableImport
import Constify.Proofs.Patch.Order
import Constify.Proofs.Patch.Reading
import Constify.Proofs.Patch.Subsequence
import Constify.Proofs.Patch.Minimal
import Constify.Proofs.Settings.Valid
import Constify.Proofs.Run.Failure
import Constify.Proofs.Text.Blank
import Constify.Proofs.Table.Header
import Constify.Proofs.Table.ModuleText
import Constify.Proofs.Import.Scan
import Constify.Proofs.Import.Syntax
import Constify.Proofs.Import.Placement
import Constify.Proofs.Import.Reading
import Constify.Proofs.Import.Listing
import Constify.Proofs.Import.Printing
import Constify.Proofs.Import.Addition
import Constify.Proofs.Import.LineEnding
import Constify.Proofs.Table.Literal
import Constify.Proofs.Run.Collection
import Constify.Proofs.Run.Directories
import Constify.Proofs.Import.Extent
import Constify.Proofs.Table.Extension
import Constify.Proofs.Identifier.Runs
import Constify.Proofs.Import.Coverage
import Constify.Proofs.Run.TableSource
import Constify.Proofs.Report.Grammar
import Constify.Proofs.Report.Reader
import Constify.Proofs.Report.Response
