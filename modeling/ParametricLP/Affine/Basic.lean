import ParametricLP.Scalar

/-! # Affine functions of the path parameter

Right-hand sides, costs, basic values, multipliers and reduced costs are all of the form `constant +
lam * slope`. `Affine` is one such function; vectors of them are in `ParametricLP.Affine.Vector`.
What the path solver asks of them is where they cross zero and whether they stay nonnegative for
large `lam`. -/

namespace ParametricLP

variable {α : Type} [Scalar α]

/-- The function `lam ↦ constant + lam * slope`. -/
structure Affine (α : Type) where
  constant : α
  slope : α

namespace Affine

/-- Value at `lam`. -/
def value (e : Affine α) (lam : α) : α :=
  e.constant + lam * e.slope

/-- Sum of two functions. -/
def add (e f : Affine α) : Affine α :=
  ⟨e.constant + f.constant, e.slope + f.slope⟩

/-- Difference of two functions. -/
def sub (e f : Affine α) : Affine α :=
  ⟨e.constant - f.constant, e.slope - f.slope⟩

/-- The function with its sign changed. -/
def neg (e : Affine α) : Affine α :=
  ⟨-e.constant, -e.slope⟩

/-- The function raised by a number. -/
def shift (e : Affine α) (x : α) : Affine α :=
  ⟨e.constant + x, e.slope⟩

/-- The function lowered by a number. -/
def lower (e : Affine α) (x : α) : Affine α :=
  ⟨e.constant - x, e.slope⟩

/-- The function times a number. -/
def scale (e : Affine α) (x : α) : Affine α :=
  ⟨e.constant * x, e.slope * x⟩

/-- The `lam` at which the function is zero, if its slope is not. -/
def zeroCrossing? (e : Affine α) : Option α :=
  if Scalar.isZero e.slope then none else some (-e.constant / e.slope)

/-- The `lam` at which two functions agree, if their slopes differ. -/
def crossing? (e f : Affine α) : Option α :=
  (e.sub f).zeroCrossing?

/-- The `lam` below which a rising function is negative; a slope of at most `tol` counts as not
    rising. -/
def fallsToZero? (e : Affine α) (tol : α) : Option α :=
  if tol < e.slope then some (-e.constant / e.slope) else none

/-- Whether the function is nonnegative for all large `lam`: it rises by more than `slopeTol`, or it
    is flat up to `slopeTol` and its constant is at least `-tol`. -/
def nonnegAtInfinity (e : Affine α) (tol slopeTol : α) : Bool :=
  decide (slopeTol < e.slope) ||
    (decide (Scalar.abs e.slope ≤ slopeTol) && decide (-tol ≤ e.constant))

/-- Whether the function is nonnegative from `lam` on. -/
def nonnegAbove (e : Affine α) (lam tol : α) : Bool :=
  e.nonnegAtInfinity tol tol && decide (-tol ≤ e.value lam)

/-- Whether two functions have equal constants and equal slopes. -/
def same (e f : Affine α) : Bool :=
  decide (e.constant ≤ f.constant) && decide (f.constant ≤ e.constant) &&
    decide (e.slope ≤ f.slope) && decide (f.slope ≤ e.slope)

/-- The function written out, its two numbers as `num` writes them. -/
def text (num : α → String) (e : Affine α) : String :=
  s!"ParametricExpression(constant={num e.constant}, slope={num e.slope})"

end Affine

end ParametricLP
