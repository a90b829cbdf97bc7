import ParametricLP.Affine.Vector
import ParametricLP.Block

/-! # Parametric linear programs

An `Instance` is the problem

`minimise (c + lam * cBar) x` subject to `A x = b + lam * bBar`, `x ≥ 0`

together with a starting basis: as many distinct columns as there are rows. Right-hand side and cost
are affine functions of `lam`. `Instance.ofParts?` checks data of matching sizes;
`ParametricLP.Instance.Reading` checks data of unknown shape. -/

namespace ParametricLP

variable {α : Type} [Scalar α]

/-- A parametric linear program of `m` rows and `n` columns with a starting basis. -/
structure Instance (α : Type) (m n : Nat) where
  matrix : Mat α m n
  /-- Right-hand side, an affine function of `lam`. -/
  rhs : AffineVector α m
  /-- Cost, an affine function of `lam`. -/
  cost : AffineVector α n
  /-- Column held by each row at the start. -/
  basis : Vector (Fin n) m
  rows_pos : 0 < m
  basis_injective : ∀ i j : Fin m, basis[i] = basis[j] → i = j

/-- The parts of a problem, as error texts name them. -/
inductive Part where
  | matrix
  | rhs
  | rhsSlope
  | cost
  | costSlope
  deriving DecidableEq, Repr

/-- Name of a part in error texts. -/
def Part.text : Part → String
  | .matrix => "A"
  | .rhs => "b"
  | .rhsSlope => "b_bar"
  | .cost => "c"
  | .costSlope => "c_bar"

/-- Why data do not describe a problem. -/
inductive ProblemError where
  /-- Nested lists of unequal lengths, or nothing that could be such lists. -/
  | ragged
  /-- The matrix does not have two extents. -/
  | notTwoDimensional (shape : List Nat)
  /-- A part has an infinite or undefined entry. -/
  | notFinite (part : Part)
  /-- The matrix has no rows or no columns. -/
  | emptyMatrix (rows cols : Nat)
  /-- The matrix has more rows than columns. -/
  | tooManyRows (rows cols : Nat)
  /-- A part has the wrong number of entries. -/
  | wrongLength (part : Part) (expected got : Nat)
  /-- A basis entry is not a number. -/
  | undefinedColumn
  /-- A basis entry is infinite. -/
  | infiniteColumn
  /-- The basis does not have one column per row. -/
  | basisSize (expected got : Nat)
  /-- The basis holds a column twice. -/
  | basisRepeats
  /-- A basis entry is not the index of a column. -/
  | basisOutOfRange (cols : Nat)
  deriving DecidableEq, Repr

/-- Wording of the refusal. -/
def ProblemError.message : ProblemError → String
  | .ragged => "nested lists are ragged"
  | .notTwoDimensional shape => s!"A must be 2-dimensional, got shape {shapeText shape}"
  | .notFinite part => s!"{part.text} contains non-finite entries"
  | .emptyMatrix m n => s!"A must be non-empty, got shape {shapeText [m, n]}"
  | .tooManyRows m n => s!"A must have at least as many columns as rows, got {shapeText [m, n]}"
  | .wrongLength part expected got => s!"{part.text} must have length {expected}, got {got}"
  | .undefinedColumn => "basis entry is not a number"
  | .infiniteColumn => "basis entry is infinite"
  | .basisSize expected got => s!"basis must contain {expected} indices, got {got}"
  | .basisRepeats => "basis indices must be distinct"
  | .basisOutOfRange n => s!"basis indices must lie in [0, {n})"

namespace Instance

variable {m n : Nat}

/-- The matrix of the columns held by a basis. -/
def basisMatrix (p : Instance α m n) (basis : Vector (Fin n) m) : Mat α m m :=
  p.matrix.columns basis

/-- Refuses a vector with an entry that is not finite. -/
def checkFinite (part : Part) {k : Nat} (v : Vector α k) : Except ProblemError Unit :=
  if v.all Scalar.isFinite then .ok () else .error (.notFinite part)

/-- Refuses the extents of a matrix that has no entries or more rows than columns. -/
def checkExtents (m n : Nat) : Except ProblemError Unit :=
  if m = 0 ∨ n = 0 then
    .error (.emptyMatrix m n)
  else if n < m then
    .error (.tooManyRows m n)
  else
    .ok ()

/-- Refuses a matrix with an entry that is not finite, an empty one, and one of more rows than
    columns. -/
def checkMatrix (A : Mat α m n) : Except ProblemError Unit :=
  if A.all fun row => row.all Scalar.isFinite then checkExtents m n
  else .error (.notFinite .matrix)

/-- The problem with the given parts, if its starting basis has distinct columns. -/
def ofBasis? (matrix : Mat α m n) (rhs : AffineVector α m) (cost : AffineVector α n)
    (basis : Vector (Fin n) m) : Except ProblemError (Instance α m n) :=
  if hm : 0 < m then
    if h : ∀ i j : Fin m, basis[i] = basis[j] → i = j then
      .ok ⟨matrix, rhs, cost, basis, hm, h⟩
    else
      .error .basisRepeats
  else
    .error (.emptyMatrix m n)

/-- The problem with the given parts, if they are finite, the matrix is neither empty nor too tall
    and the starting basis has distinct columns. -/
def ofParts? (matrix : Mat α m n) (rhs : AffineVector α m) (cost : AffineVector α n)
    (basis : Vector (Fin n) m) : Except ProblemError (Instance α m n) := do
  checkMatrix matrix
  checkFinite .rhs rhs.constant
  checkFinite .rhsSlope rhs.slope
  checkFinite .cost cost.constant
  checkFinite .costSlope cost.slope
  ofBasis? matrix rhs cost basis

end Instance

end ParametricLP
