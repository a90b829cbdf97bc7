import Mathlib
import ParametricLP.Proofs.Run.Bookkeeping

/-!
# What a run spends

A run that stops at one of its limits has recorded a path in proportion: a full path, or one whose
marks would have paid for more pivots than were made. These are the parts of an orderly outcome that
a bound on the length of a path is compared with.

## Key results

- `Solves.withinBudget`: what a run has recorded when it stops at one of its limits
-/

namespace ParametricLP

variable {m n : ℕ} {p : Instance ℚ m n} {cfg : Config ℚ}

/-- What has been recorded when a run stops at a limit or at its threshold. -/
structure Outcome.WithinBudget (cfg : Config ℚ) (o : Outcome ℚ m n) : Prop where
  full : o.status = .maxBreakpoints → o.path.length = cfg.maxBreakpoints
  exhausted : o.status = .maxIter → cfg.maxPivots < (cfg.stallCap m n + 1) * o.path.length
  ended : o.status = .lambdaThreshold → o.lams.getLast? = some cfg.threshold

/-- What an outcome records when a limit or the threshold is reached. -/
theorem Solves.withinBudget {o : Outcome ℚ m n} (h : Solves p cfg o) : o.WithinBudget cfg := by
  have horderly := h.orderly
  refine ⟨horderly.full, fun hstatus => ?_, horderly.ended_iff.2⟩
  -- A run that is exhausted has made all the pivots allowed, and its marks have not paid for more.
  rw [← horderly.exhausted hstatus]
  exact horderly.unspent hstatus

end ParametricLP
