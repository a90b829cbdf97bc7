import ParametricLP.Reduction.Projection
import ParametricLP.Trace.Run

/-! # Regularization paths

The path of a reduction in its own coordinates: coefficients and intercept at every breakpoint, and
predictions from them. -/

namespace ParametricLP

variable {α : Type} [Scalar α] {m n : Nat}

/-- The path of a reduction in its own coordinates. -/
structure RegularizationPath (α : Type) (m n : Nat) where
  /-- Number of coefficients. -/
  features : Nat
  /-- Coefficients at each breakpoint. -/
  coef : List (List α)
  /-- Intercept at each breakpoint, if the problem has one. -/
  intercept : Option (List α)
  /-- The path in the coordinates of the linear program. -/
  outcome : Outcome α m n

/-- Why a prediction is refused. -/
inductive PredictionError where
  /-- The path has no breakpoint. -/
  | emptyPath
  /-- The data do not fit, or there is no such breakpoint. -/
  | block (cause : BlockError)
  deriving DecidableEq, Repr

/-- Wording for a path without breakpoints. -/
def emptyPathText : String := "Path is empty"

/-- Number of coefficients from which on no table of them can be addressed. -/
def tableLimit : Int := 0x1000000000000000

namespace Reduction

/-- The path of a reduction, read off an outcome for its linear program. -/
def path (r : Reduction α m n) (o : Outcome α m n) :
    Except BlockError (RegularizationPath α m n) :=
  if r.features < 0 ∨ tableLimit ≤ r.features * (max 1 o.path.length : Nat) then
    .error .extents
  else do
    let features := r.features.toNat
    let points ← o.primal.mapM fun x => do
      let point ← r.project x.toList
      match stretchTo? features point.coef with
      | some coef => return { point with coef }
      | none => .error .extents
    return {
      features
      coef := points.map (·.coef)
      intercept := r.intercept.map fun _ => points.filterMap (·.intercept)
      outcome := o }

end Reduction

namespace RegularizationPath

/-- Number of breakpoints. -/
def size (p : RegularizationPath α m n) : Nat :=
  p.outcome.path.length

/-- The linear predictor of one observation. -/
def predictor (coef : List α) (intercept : Option α) (row : List α) : α :=
  let sum := (row.zipWith (· * ·) coef).foldl (· + ·) 0
  match intercept with
  | some b => sum + b
  | none => sum

/-- Predictions at a breakpoint, which may be counted from the end, for observations along the
    innermost extent of a block. -/
def predict (p : RegularizationPath α m n) (X : Nested α) (index : Int) :
    Except PredictionError (Block α) :=
  if p.size = 0 then
    .error .emptyPath
  else do
    let X ← X.read.mapError .block
    match resolve? p.coef.length index, X with
    | none, _ => .error (.block .index)
    | some _, ⟨[], _⟩ => .error (.block .extents)
    | some k, ⟨n :: s, cells⟩ =>
      if (n :: s).getLast? = some p.features then
        let value := predictor p.coef[k] (p.intercept.bind (·[k]?))
        return ⟨(n :: s).dropLast, cells.alongInnermost value⟩
      else
        .error (.block .extents)

/-- The path written by its size, number of coefficients, status and pivots. -/
def text (p : RegularizationPath α m n) : String :=
  let status := p.outcome.verdict.status.text
  s!"RegularizationPath(breakpoints={p.size}, features={p.features}, " ++
    s!"status={status}, nit={p.outcome.pivots})"

end RegularizationPath

end ParametricLP
