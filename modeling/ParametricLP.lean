import ParametricLP.Affine.Basic
import ParametricLP.Affine.Vector
import ParametricLP.Block
import ParametricLP.Config
import ParametricLP.Decimal.Basic
import ParametricLP.Decimal.Shortest
import ParametricLP.Decimal.Text
import ParametricLP.Instance.Basic
import ParametricLP.Instance.Reading
import ParametricLP.Log.Characters
import ParametricLP.Log.Format
import ParametricLP.Log.Level
import ParametricLP.Log.Record
import ParametricLP.Log.Registry
import ParametricLP.Log.Source
import ParametricLP.Mat.Basic
import ParametricLP.Mat.Elimination
import ParametricLP.Mat.Inverse
import ParametricLP.Optimality
import ParametricLP.Path
import ParametricLP.Position
import ParametricLP.Reduction.Basic
import ParametricLP.Reduction.Hinge
import ParametricLP.Reduction.MaxNorm
import ParametricLP.Reduction.Path
import ParametricLP.Reduction.Quantile
import ParametricLP.Scalar
import ParametricLP.Selection
import ParametricLP.Status
import ParametricLP.Tableau
import ParametricLP.Tableau.Session
import ParametricLP.Trace.Breakpoint
import ParametricLP.Trace.Report
import ParametricLP.Trace.Run
import ParametricLP.Trace.Verdict
import ParametricLP.Vector
import ParametricLP.Block.Access
import ParametricLP.Block.Product
import ParametricLP.Affine.Block
import ParametricLP.Block.Inverse
import ParametricLP.Path.Snapshot
import ParametricLP.Selection.Block
import ParametricLP.Log.Line
import ParametricLP.Proofs.Samples
import ParametricLP.Proofs.Mat.View
import ParametricLP.Proofs.Affine
import ParametricLP.Proofs.Affine.Block
import ParametricLP.Proofs.Mat.Inverse
import ParametricLP.Proofs.Duality
import ParametricLP.Proofs.Selection
import ParametricLP.Proofs.Tableau.Solution
import ParametricLP.Proofs.Tableau.Segment
import ParametricLP.Proofs.Tableau.Pivot
import ParametricLP.Proofs.Tableau.RatioTest
import ParametricLP.Proofs.Tableau.Resolution
import ParametricLP.Proofs.Run.Budget
import ParametricLP.Proofs.Run.Exact
import ParametricLP.Proofs.Path.Bases
import ParametricLP.Proofs.Path.Optimality
import ParametricLP.Proofs.Residuals
import ParametricLP.Proofs.Path.Verification
import ParametricLP.Proofs.Tableau.Session
import ParametricLP.Proofs.Run.Tightening
import ParametricLP.Proofs.Run.Refactoring
import ParametricLP.Proofs.Run.Reorder
import ParametricLP.Proofs.Mat.Blocks
import ParametricLP.Proofs.Reduction.Projection
import ParametricLP.Proofs.Reduction.Represents
import ParametricLP.Proofs.Reduction.SplitResiduals
import ParametricLP.Proofs.Instance
import ParametricLP.Proofs.Reduction.Quantile
import ParametricLP.Proofs.Reduction.Hinge
import ParametricLP.Proofs.Reduction.MaxNorm
import ParametricLP.Proofs.Mat.Arrow
import ParametricLP.Proofs.Tableau.Start
import ParametricLP.Proofs.Reduction.SplitStart
import ParametricLP.Proofs.Reduction.QuantileStart
import ParametricLP.Proofs.Reduction.HingeStart
import ParametricLP.Proofs.Reduction.Start
import ParametricLP.Proofs.Gap
import ParametricLP.Proofs.Run.Start
import ParametricLP.Proofs.Run.Ledger
import ParametricLP.Proofs.Run.Bookkeeping
import ParametricLP.Proofs.Run.Orderly
import ParametricLP.Proofs.Reduction.Monotone
import ParametricLP.Proofs.Tableau.Reachable
import ParametricLP.Proofs.Path.Conditions
import ParametricLP.Proofs.Run.JustBelow
import ParametricLP.Proofs.Run.Pivots
import ParametricLP.Proofs.Path.Continuity
import ParametricLP.Proofs.Reduction.Lift
import ParametricLP.Proofs.Selection.Lexicographic
import ParametricLP.Proofs.Selection.Block
import ParametricLP.Proofs.Log.Format
import ParametricLP.Proofs.Log.Calls
import ParametricLP.Proofs.Run.First
import ParametricLP.Proofs.Reduction.NullModel
