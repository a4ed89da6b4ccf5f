import JvmLisp.Main
import JvmLisp.Proofs.Pool.Structure
import JvmLisp.Proofs.Pool.Resolution
import JvmLisp.Proofs.Pool.Catalogue
import JvmLisp.Proofs.Pool.Runs
import JvmLisp.Proofs.Pool.Capacity
import JvmLisp.Proofs.Pool.Deduplication
import JvmLisp.Proofs.Pool.Order
import JvmLisp.Proofs.Pool.Refusal
import JvmLisp.Proofs.Pool.Caching
import JvmLisp.Proofs.Source.Grammar
import JvmLisp.Proofs.Source.Reading
import JvmLisp.Proofs.Source.Place
import JvmLisp.Proofs.Source.Lookahead
import JvmLisp.Proofs.Source.Context
import JvmLisp.Proofs.Source.Flaw
import JvmLisp.Proofs.Source.Fault
import JvmLisp.Proofs.Source.Expression
import JvmLisp.Proofs.Jvm.Operation
import JvmLisp.Proofs.Jvm.Descriptor
import JvmLisp.Proofs.Jvm.Reader
import JvmLisp.Proofs.Jvm.Decoding
import JvmLisp.Proofs.Jvm.Lossless
import JvmLisp.Proofs.Jvm.Machine
import JvmLisp.Proofs.Program.Emission
import JvmLisp.Proofs.Program.Translation
import JvmLisp.Proofs.Program.Simulation
import JvmLisp.Proofs.Program.Nesting
import JvmLisp.Proofs.Program.Verification
import JvmLisp.Proofs.Program.Safety
import JvmLisp.Proofs.Program.Progress
import JvmLisp.Proofs.Program.Marks
import JvmLisp.Proofs.Program.Lookahead
import JvmLisp.Proofs.Program.Trail
import JvmLisp.Proofs.Program.Blame
import JvmLisp.Proofs.Program.Caret
import JvmLisp.Proofs.Program.Generation
import JvmLisp.Proofs.Program.Acceptance
import JvmLisp.Proofs.Program.Usage
import JvmLisp.Proofs.Program.Evaluation
import JvmLisp.Proofs.Program.Packaging
import JvmLisp.Proofs.Program.Embedding
import JvmLisp.Proofs.Program.Limits
import JvmLisp.Proofs.Program.Correctness
import JvmLisp.Proofs.Jvm.Account
import JvmLisp.Proofs.Jvm.Stream
import JvmLisp.Proofs.Program.Depth
import JvmLisp.Proofs.Text.Spelling
import JvmLisp.Proofs.Program.Listing
import JvmLisp.Proofs.Jvm.Wording
import JvmLisp.Proofs.Source.Line
import JvmLisp.Proofs.Source.Tracking
import JvmLisp.Proofs.Source.Quotation
import JvmLisp.Proofs.Program.Literal
import JvmLisp.Proofs.Program.Report
import JvmLisp.Proofs.Host.Tree
import JvmLisp.Proofs.Host.Directories
import JvmLisp.Proofs.Command.Effects
import JvmLisp.Proofs.Command.Placement
import JvmLisp.Proofs.Command.Arguments
import JvmLisp.Proofs.Jvm.Delimited
import JvmLisp.Proofs.Source.Loop
import JvmLisp.Proofs.Program.Termination
