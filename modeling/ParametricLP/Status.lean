/-! # Why a run stopped

The eight ways in which a run over the path can end. Three of them leave a valid path behind: it
reached the threshold or used up a budget. The others report a failure. -/

namespace ParametricLP

/-- Why a run stopped. -/
inductive Status where
  | lambdaThreshold
  | maxBreakpoints
  | maxIter
  | infeasibleStart
  | unbounded
  | infeasible
  | cycling
  | numericalError
  deriving DecidableEq, Repr

namespace Status

/-- All statuses, in their fixed order. -/
def all : List Status :=
  [.lambdaThreshold, .maxBreakpoints, .maxIter, .infeasibleStart, .unbounded, .infeasible,
    .cycling, .numericalError]

/-- Name of a status in listings. -/
def label : Status → String
  | .lambdaThreshold => "LAMBDA_THRESHOLD"
  | .maxBreakpoints => "MAX_BREAKPOINTS"
  | .maxIter => "MAX_ITER"
  | .infeasibleStart => "INFEASIBLE_START"
  | .unbounded => "UNBOUNDED"
  | .infeasible => "INFEASIBLE"
  | .cycling => "CYCLING"
  | .numericalError => "NUMERICAL_ERROR"

/-- Name of a status in results and log lines. -/
def text : Status → String
  | .lambdaThreshold => "lambda_threshold"
  | .maxBreakpoints => "max_breakpoints"
  | .maxIter => "max_iter"
  | .infeasibleStart => "infeasible_start"
  | .unbounded => "unbounded"
  | .infeasible => "infeasible"
  | .cycling => "cycling"
  | .numericalError => "numerical_error"

/-- Whether the run reached the threshold or used up a budget, so that its path is valid. -/
def isSuccess : Status → Bool
  | .lambdaThreshold | .maxBreakpoints | .maxIter => true
  | _ => false

end Status

/-- Version of the library, as it reports it. -/
def version : String := "0.1.0"

end ParametricLP
