import TensorCompiler.Graph.Drawing
import TensorCompiler.Schedule.Scheduling
import TensorCompiler.Schedule.Packing
import TensorCompiler.Schedule.Encoding
import TensorCompiler.Rule.Transpose
import TensorCompiler.Rule.Reshape
import TensorCompiler.Rule.Activation
import TensorCompiler.Rule.Quantization
import TensorCompiler.Rule.Accelerator
import TensorCompiler.Rule.Template
import TensorCompiler.Compile
import TensorCompiler.Script.Import
import TensorCompiler.Command.Directory
import TensorCompiler.Main
import TensorCompiler.Proofs.Schedule.Liveness
import TensorCompiler.Proofs.Rewriting.Runs
import TensorCompiler.Proofs.Graph.Integrity
import TensorCompiler.Proofs.Construction.Additions
import TensorCompiler.Proofs.Construction.Sessions
import TensorCompiler.Proofs.Rewriting.Beside
import TensorCompiler.Proofs.Rewriting.Careful
import TensorCompiler.Proofs.Rewriting.Upkeep
import TensorCompiler.Proofs.Rewriting.Termination
import TensorCompiler.Proofs.Graph.Precedence
import TensorCompiler.Proofs.Rewriting.Convergence
import TensorCompiler.Proofs.Rewriting.NormalForm
import TensorCompiler.Proofs.Rewriting.Trades
import TensorCompiler.Proofs.Rewriting.Exchange
import TensorCompiler.Proofs.Rewriting.Conservation
import TensorCompiler.Proofs.Memory.Headroom
import TensorCompiler.Proofs.Schedule.Completion
import TensorCompiler.Proofs.Rewriting.HostPasses
import TensorCompiler.Proofs.Compilation.Success
import TensorCompiler.Proofs.Memory.Ledger
import TensorCompiler.Proofs.Schedule.Usage
import TensorCompiler.Proofs.Schedule.Marks
import TensorCompiler.Proofs.Schedule.Accounting
import TensorCompiler.Proofs.Schedule.Improvement
import TensorCompiler.Proofs.Construction.Transcription
import TensorCompiler.Proofs.Graph.Rerouting
import TensorCompiler.Proofs.Schedule.HandOff
import TensorCompiler.Proofs.Rewriting.Boundaries
import TensorCompiler.Proofs.Rewriting.Convexity
import TensorCompiler.Proofs.Graph.DepthFirst
import TensorCompiler.Proofs.Graph.Survivors
import TensorCompiler.Proofs.Memory.Lending
import TensorCompiler.Proofs.Memory.Answers
import TensorCompiler.Proofs.Schedule.Provision
import TensorCompiler.Proofs.Schedule.Refusals
import TensorCompiler.Proofs.Schedule.LowestFit
import TensorCompiler.Proofs.Memory.Alignment
import TensorCompiler.Proofs.Schedule.Padding
import TensorCompiler.Proofs.Schedule.DeadCode
import TensorCompiler.Proofs.Evaluation.Clamping
import TensorCompiler.Proofs.Rewriting.Strands
import TensorCompiler.Proofs.Rewriting.TransposeChains
import TensorCompiler.Proofs.Rewriting.Budgets
import TensorCompiler.Proofs.Construction.Atomicity
import TensorCompiler.Proofs.Construction.Oversize
import TensorCompiler.Proofs.Construction.Guards
import TensorCompiler.Proofs.Construction.LineByLine
