import TracedScript.CommandLine.Execute
import TracedScript.Main
import TracedScript.Program
import TracedScript.Proofs.Syntax.Subtree
import TracedScript.Proofs.Value.Throughout
import TracedScript.Proofs.Value.Confined
import TracedScript.Proofs.Scope.Store
import TracedScript.Proofs.Run.Agreement
import TracedScript.Proofs.Run.Contract
import TracedScript.Proofs.Run.Constructs
import TracedScript.Proofs.Run.Evaluation
import TracedScript.Proofs.Control.Jumps
import TracedScript.Proofs.Scope.KindLock
import TracedScript.Proofs.Control.Failures
import TracedScript.Proofs.Files.ScriptNames
import TracedScript.Proofs.Run.Prelude
import TracedScript.Proofs.Control.Termination
import TracedScript.Proofs.Control.Visits
import TracedScript.Proofs.Control.CallChain
import TracedScript.Proofs.Control.Differences
import TracedScript.Proofs.Control.DepthLimit
import TracedScript.Proofs.Run.Discipline
import TracedScript.Proofs.Run.Obedience
import TracedScript.Proofs.Scope.Reservation
import TracedScript.Proofs.Scope.BuiltInNames
import TracedScript.Proofs.Syntax.Layout
import TracedScript.Proofs.Syntax.Reading
import TracedScript.Proofs.Syntax.SourceOrder
import TracedScript.Proofs.Control.EvaluationOrder
import TracedScript.Proofs.Run.Output
import TracedScript.Proofs.Scope.Reach
import TracedScript.Proofs.Scope.Inclusion
import TracedScript.Proofs.Run.Beside
import TracedScript.Proofs.Run.OutputLimit
import TracedScript.Proofs.Scope.Lexical
import TracedScript.Proofs.Run.Isolation
import TracedScript.Proofs.Run.LayoutFree
import TracedScript.Proofs.Syntax.Inverse
import TracedScript.Proofs.Syntax.Nesting
import TracedScript.Proofs.Syntax.FirstWrong
import TracedScript.Proofs.Syntax.LineBreaks
import TracedScript.Proofs.Value.Keys
import TracedScript.Proofs.Value.WellFormed
import TracedScript.Proofs.Run.Collections
import TracedScript.Proofs.Value.Blame
import TracedScript.Proofs.Control.Arising
import TracedScript.Proofs.Control.Tracebacks
import TracedScript.Proofs.Control.Places
import TracedScript.Proofs.Run.Provenance
import TracedScript.Proofs.Run.ReadBack
import TracedScript.Proofs.Value.Equivalence
import TracedScript.Proofs.Syntax.Onward
import TracedScript.Proofs.Syntax.OperatorRows
import TracedScript.Proofs.Value.Pairs
import TracedScript.Proofs.Syntax.Quotation
import TracedScript.Proofs.Syntax.Points
import TracedScript.Proofs.Number.Ranges
import TracedScript.Proofs.Scope.CallScope
import TracedScript.Proofs.Value.Sequences
import TracedScript.Proofs.Text.Positions
import TracedScript.Proofs.Report.Carets
import TracedScript.Proofs.Report.Painting
import TracedScript.Proofs.Files.Lookup
import TracedScript.Proofs.Value.History
import TracedScript.Proofs.Text.Normalizing
import TracedScript.Proofs.Scope.Owner
import TracedScript.Proofs.Syntax.Integers
import TracedScript.Proofs.Report.Lines
