import ParametricLP.Mat.Elimination

/-! # The inverse of a basis matrix

`Mat.inverse?` inverts by elimination against the identity and refuses a matrix whose condition
number in the one-norm is too large to trust. `Mat.exchange` is the product-form correction of a
known inverse when one column of the matrix is replaced. -/

namespace ParametricLP

variable {α : Type} [Scalar α]

/-- Why a basis matrix has no usable inverse. -/
inductive SingularBasis where
  /-- A single list of numbers was given instead of a matrix. -/
  | notAMatrix
  /-- The matrix does not have as many rows as columns. -/
  | notSquare
  /-- Elimination met a column whose remaining entries are all zero. -/
  | zeroPivot
  /-- The condition number times the tolerance exceeds one, or is not finite. -/
  | illConditioned
  deriving DecidableEq, Repr

/-- Wording of the refusal. -/
def SingularBasis.message : SingularBasis → String
  | .notAMatrix =>
    "Basis matrix is singular: 1-dimensional array given. Array must be at least two-dimensional"
  | .notSquare => "Basis matrix is singular: Last 2 dimensions of the array must be square"
  | .zeroPivot => "Basis matrix is singular: Singular matrix"
  | .illConditioned => "Basis matrix is numerically singular"

namespace Mat

/-- Tolerance on the reciprocal condition number. -/
def conditionTol : α := 1e-12

/-- The inverse of a square matrix, unless it is singular or too badly conditioned. -/
def inverse? {m : Nat} (B : Mat α m m) (tol : α := conditionTol) :
    Except SingularBasis (Mat α m m) :=
  match solve? B (identity m) with
  | none => .error .zeroPivot
  | some X =>
    if Scalar.isFinite X.oneNorm && !decide (1 < B.oneNorm * X.oneNorm * tol) then
      .ok X
    else
      .error .illConditioned

/-- The inverse after the column held by `row` has been replaced by one whose image under the old
    inverse is `direction`: that row is divided by the pivot, and multiples of it clear the others.
    -/
def exchange {m k : Nat} (inverse : Mat α m k) (direction : Vector α m) (row : Fin m) :
    Mat α m k :=
  let pivotRow : Vector α k := Vector.ofFn fun j => inverse[row][j] / direction[row]
  Vector.ofFn fun i =>
    if i = row then pivotRow else subMultiple inverse[i] direction[i] pivotRow

end Mat

end ParametricLP
