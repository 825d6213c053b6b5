import FlowTyping.Agenda
import FlowTyping.Body.Basic
import FlowTyping.Body.Block
import FlowTyping.Body.Builder
import FlowTyping.Body.Expr
import FlowTyping.Body.Lowering
import FlowTyping.Body.Malformed
import FlowTyping.Declaration.Hint
import FlowTyping.Declaration.Table
import FlowTyping.Facts
import FlowTyping.Fault
import FlowTyping.Id
import FlowTyping.Inference.Error
import FlowTyping.Inference.Report
import FlowTyping.Inference.Result
import FlowTyping.Inference.Solver
import FlowTyping.Kind.Basic
import FlowTyping.Kind.Summary
import FlowTyping.Kind.Table
import FlowTyping.Mask.Basic
import FlowTyping.Mask.Word
import FlowTyping.Name
import FlowTyping.Options.Basic
import FlowTyping.Options.Reader
import FlowTyping.OrderedMap
import FlowTyping.Overload
import FlowTyping.Proofs.Agenda
import FlowTyping.Proofs.Agenda.History
import FlowTyping.Proofs.Body
import FlowTyping.Proofs.Inference.Fixpoint
import FlowTyping.Proofs.Inference.Foreach
import FlowTyping.Proofs.Inference.Reachable
import FlowTyping.Proofs.Inference.Total
import FlowTyping.Proofs.Kind.Settled
import FlowTyping.Proofs.Kind.Table
import FlowTyping.Proofs.Kind.Typing
import FlowTyping.Proofs.Lattice
import FlowTyping.Proofs.Rank
import FlowTyping.Proofs.Solver.Arrival
import FlowTyping.Proofs.Solver.Change
import FlowTyping.Proofs.Solver.Outset
import FlowTyping.Proofs.Solver.Round
import FlowTyping.Proofs.Solver.Run
import FlowTyping.Proofs.Solver.Start
import FlowTyping.Proofs.Solver.Step
import FlowTyping.Proofs.Solver.Visited
import FlowTyping.Proofs.Soundness.Describe
import FlowTyping.Proofs.Soundness.Form
import FlowTyping.Proofs.Soundness.Narrow
import FlowTyping.Proofs.Soundness.Operator
import FlowTyping.Proofs.Soundness.Place
import FlowTyping.Proofs.Soundness.Value
import FlowTyping.Proofs.Soundness.Visit
import FlowTyping.Proofs.Visit.Block
import FlowTyping.Proofs.Visit.Call
import FlowTyping.Proofs.Visit.Exit
import FlowTyping.Proofs.Visit.Expr
import FlowTyping.Proofs.Visit.Fit
import FlowTyping.Proofs.Visit.Keep
import FlowTyping.Proofs.Visit.Logic
import FlowTyping.Proofs.Visit.Place
import FlowTyping.State
import FlowTyping.Text.CodeRange
import FlowTyping.Text.Document
import FlowTyping.Text.ExtendingMark
import FlowTyping.Text.Json
import FlowTyping.Text.Quoted
import FlowTyping.Text.Unprintable
import FlowTyping.Visit.Basic
import FlowTyping.Visit.Block
import FlowTyping.Visit.Call
import FlowTyping.Visit.ClassName
import FlowTyping.Visit.Expr
import FlowTyping.Visit.Narrow
import FlowTyping.Visit.Operator
import FlowTyping.Visit.Place
import FlowTyping.Proofs.Solver.Load
import FlowTyping.Proofs.Solver.Progress
import FlowTyping.Proofs.Inference.Convergence
import FlowTyping.Proofs.Visit.Rebind
import FlowTyping.Proofs.Visit.Target
import FlowTyping.Proofs.Visit.Through
import FlowTyping.Proofs.Solver.Bound
import FlowTyping.Proofs.Inference.Callee
import FlowTyping.Proofs.Inference.Override
import FlowTyping.Proofs.Inference.Growth
import FlowTyping.Proofs.Inference.Deferral
import FlowTyping.Proofs.Lowering.ControlFlow
import FlowTyping.Proofs.Inference.Independence
import FlowTyping.Proofs.Kind.Change
import FlowTyping.Proofs.Kind.Session
import FlowTyping.Proofs.Kind.RoundTrip
import FlowTyping.Proofs.Kind.Transfer
import FlowTyping.Proofs.Semilattice
import FlowTyping.Proofs.Solver.Tally
import FlowTyping.Proofs.Inference.Counters
import FlowTyping.Proofs.Lowering.Script
import FlowTyping.Proofs.Lowering.WellFormed
import FlowTyping.Proofs.Lowering.Site
import FlowTyping.Proofs.Lowering.Handlers
import FlowTyping.Proofs.Declaration.Hierarchy
import FlowTyping.Proofs.Soundness.Instance
import FlowTyping.Proofs.Soundness.Result
import FlowTyping.Proofs.Soundness.KindTest
import FlowTyping.Proofs.Kind.Store
import FlowTyping.Proofs.Lowering.Jump
import FlowTyping.Proofs.Soundness.Element
import FlowTyping.Proofs.Visit.Invariant
import FlowTyping.Proofs.Visit.Item
import FlowTyping.Proofs.Visit.Shared
import FlowTyping.Proofs.Visit.NormalForm
import FlowTyping.Proofs.Mask.Word
