import ParametricLP.Instance.Reading

/-! # Reductions of statistical problems

A reduction turns a design matrix and responses into a parametric linear program and remembers which
columns carry the coefficients: the positive parts of all of them, followed at once by the negative
parts. `ParametricLP.Reduction.Projection` reads the coefficients off a solution.

`Design` is the checked pair of a design matrix and responses that the families of reductions start
from. -/

namespace ParametricLP

variable {α : Type} [Scalar α] {m n : Nat}

/-- Why statistical data are refused. -/
inductive DesignError (α : Type) where
  | notTwoDimensional (shape : List Nat)
  | empty (rows cols : Nat)
  | rowMismatch (rows responses : Nat)
  | notFinite
  /-- The quantile level is not strictly between zero and one. -/
  | level (got : α)
  /-- A class label is neither `-1` nor `1`. -/
  | label
  deriving DecidableEq, Repr

/-- Wording of the refusal, its numbers as `num` writes them. -/
def DesignError.message (num : α → String) : DesignError α → String
  | .notTwoDimensional shape => s!"X must be 2-dimensional, got shape {shapeText shape}"
  | .empty rows cols => s!"X must be non-empty, got shape {shapeText [rows, cols]}"
  | .rowMismatch rows responses => s!"X has {rows} rows but y has {responses} entries"
  | .notFinite => "X and y must contain only finite values"
  | .level got => s!"tau must lie in (0, 1), got {num got}"
  | .label => "SVM labels must be -1 or +1"

/-- Why no reduction is built. -/
inductive ReductionError (α : Type) where
  /-- The statistical data are refused. -/
  | design (cause : DesignError α)
  /-- The linear program built from them is. -/
  | problem (cause : ProblemError)
  deriving DecidableEq, Repr

/-- A design matrix of `n` observations of `d` features, and the responses. -/
structure Design (α : Type) (n d : Nat) where
  matrix : Mat α n d
  response : Vector α n

/-- A design of any size. -/
structure AnyDesign (α : Type) where
  rows : Nat
  features : Nat
  design : Design α rows features

/-- The design that two nested lists describe, the nesting of the responses removed, or their first
    fault. -/
def Design.ofNested? (X y : Nested α) : Except (ReductionError α) (AnyDesign α) := do
  let X ← X.block.mapError .problem
  let y ← y.block.mapError .problem
  match X with
  | ⟨[n, d], matrix⟩ =>
    if n = 0 ∨ d = 0 then
      .error (.design (.empty n d))
    else
      match y.vector? n with
      | none => .error (.design (.rowMismatch n y.entries.length))
      | some response =>
        if X.entries.all Scalar.isFinite && y.entries.all Scalar.isFinite then
          .ok ⟨n, d, matrix, response⟩
        else
          .error (.design .notFinite)
  | ⟨shape, _⟩ => .error (.design (.notTwoDimensional shape))

/-- Which of two columns holds a part of a number: the first the positive one, the second the
    negative one. -/
def partOf (negative : Bool) : Fin (1 + 1) :=
  if negative then 1 else 0

/-- A linear program together with the columns of its coefficients. -/
structure Reduction (α : Type) (m n : Nat) where
  inst : Instance α m n
  /-- Number of coefficients. -/
  features : Int
  /-- First column of the positive parts; the negative parts follow them. -/
  offset : Int := 0
  /-- Columns of the positive and the negative part of the intercept, if there is one. -/
  intercept : Option (Int × Int) := none
  name : String := "reduction"

/-- A reduction of any size. -/
structure AnyReduction (α : Type) where
  rows : Nat
  cols : Nat
  reduction : Reduction α rows cols

end ParametricLP
