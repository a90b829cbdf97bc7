/-! # What logs

The parts of the library that write log records, with the names of their loggers. All names start
with the name of the package. -/

namespace ParametricLP.Log

/-- Name of the package, which every logger's name starts with. -/
def packageName : String := "parasimplex"

/-- A part of the library that logs. -/
inductive Source where
  | tracer
  | maxNorm
  | quantile
  | hinge
  deriving DecidableEq, Repr

namespace Source

/-- All parts that log. -/
def all : List Source :=
  [.tracer, .maxNorm, .quantile, .hinge]

/-- Name of the logger of a part. -/
def logger : Source → String
  | .tracer => "parasimplex.lp.solver"
  | .maxNorm => "parasimplex.reductions.dantzig"
  | .quantile => "parasimplex.reductions.quantile"
  | .hinge => "parasimplex.reductions.svm"

end Source

end ParametricLP.Log
