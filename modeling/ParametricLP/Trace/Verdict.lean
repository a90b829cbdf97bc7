import ParametricLP.Mat.Inverse
import ParametricLP.Status

/-! # Verdicts

A verdict is the reason why a run stopped together with what it stopped at. `Verdict.status` forgets
the details, `Verdict.message` puts them into words. -/

namespace ParametricLP

/-- Why a run over a problem of `n` columns stopped, and at what. -/
inductive Verdict (α : Type) (n : Nat) where
  /-- The starting basis has no usable inverse. -/
  | singularStart (cause : SingularBasis)
  /-- A basic value of the starting basis is negative for large `lam`. -/
  | primalInfeasibleStart (column : Fin n)
  /-- A reduced cost of the starting basis is negative for large `lam`. -/
  | dualInfeasibleStart (column : Fin n)
  /-- The path has reached its end. -/
  | reachedThreshold
  /-- No further breakpoint may be recorded. -/
  | breakpointsExhausted (capacity : Nat)
  /-- No further pivot may be made. -/
  | pivotsExhausted (budget : Nat)
  /-- Too many pivots were made at one `lam`. -/
  | cycling (cap : Nat) (lam : α)
  /-- No column can replace the one whose value crosses zero. -/
  | infeasible (lam : α) (column : Fin n)
  /-- No row limits the increase of the column whose reduced cost crosses zero. -/
  | unbounded (lam : α) (column : Fin n)
  /-- The inverse of a later basis could not be computed afresh. -/
  | refactorFailed (cause : SingularBasis)
  deriving DecidableEq, Repr

namespace Verdict

variable {α : Type} {n : Nat}

/-- The verdict without its details. -/
def status : Verdict α n → Status
  | .singularStart _ | .primalInfeasibleStart _ | .dualInfeasibleStart _ => .infeasibleStart
  | .reachedThreshold => .lambdaThreshold
  | .breakpointsExhausted _ => .maxBreakpoints
  | .pivotsExhausted _ => .maxIter
  | .cycling _ _ => .cycling
  | .infeasible _ _ => .infeasible
  | .unbounded _ _ => .unbounded
  | .refactorFailed _ => .numericalError

/-- The verdict in words, its numbers as `num` writes them. -/
def message (num : α → String) : Verdict α n → String
  | .singularStart cause => s!"Initial basis is singular: {cause.message}"
  | .primalInfeasibleStart column =>
    s!"Initial basis is primal infeasible for large lambda at column {column}"
  | .dualInfeasibleStart column =>
    s!"Initial basis is dual infeasible for large lambda at column {column}"
  | .reachedThreshold => "Current basis is optimal down to lambda_threshold"
  | .breakpointsExhausted capacity => s!"Recorded the maximum of {capacity} breakpoints"
  | .pivotsExhausted budget => s!"Maximum of {budget} pivots reached"
  | .cycling cap lam => s!"More than {cap} pivots at lambda={num lam}"
  | .infeasible lam column =>
    s!"Problem is infeasible below lambda={num lam}: no column can replace basic column {column}"
  | .unbounded lam column =>
    s!"Problem is unbounded below lambda={num lam} along column {column}"
  | .refactorFailed cause => s!"Refactorization failed: {cause.message}"

end Verdict

end ParametricLP
