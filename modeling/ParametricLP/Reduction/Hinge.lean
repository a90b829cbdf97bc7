import ParametricLP.Log.Record
import ParametricLP.Reduction.Basic

/-! # Sparse support vector machine

The fit minimises the hinge losses `xi` plus `lam` times the sum of the absolute coefficients,
subject to `label * (intercept + x beta) + xi - s = 1` with `xi, s ≥ 0`. The columns are

`beta⁺ (d) | beta⁻ (d) | intercept pair | xi (n) | s (n)`.

For large `lam` the coefficients vanish and the intercept is the majority label. The minority then
has a loss of two each; the majority lies on the margin and is divided between `xi` and `s` so that
the multipliers stay between zero and one. -/

namespace ParametricLP.Hinge

variable {α : Type} [Scalar α] {n d : Nat}

/-- Number of columns of the program. -/
abbrev width (n d : Nat) : Nat :=
  d + d + (1 + 1) + (n + n)

/-- The constraint matrix, each row multiplied by its label. -/
def matrix (D : Design α n d) : Mat α n (width n d) :=
  let signed : Mat α n d := Mat.ofFn fun i j => D.response[i] * D.matrix[i][j]
  let labels : Mat α n 1 := Mat.ofFn fun i _ => D.response[i]
  (signed.signSplit.beside labels.signSplit).beside (Mat.identity n).signSplit

/-- Hinge losses; the penalty grows with `lam`. -/
def cost (n d : Nat) : AffineVector α (width n d) :=
  { constant := Vector.replicate (d + d + (1 + 1)) (0 : α) ++
      (Vector.replicate n (1 : α) ++ Vector.replicate n (0 : α))
    slope := (Vector.replicate (d + d) (1 : α) ++ Vector.replicate (1 + 1) (0 : α)) ++
      Vector.replicate (n + n) (0 : α) }

/-- Column of the loss of observation `i`. -/
def lossColumn (d : Nat) (i : Fin n) : Fin (width n d) :=
  Fin.natAdd _ (Fin.castAdd n i)

/-- Column of the surplus of observation `i`. -/
def surplusColumn (d : Nat) (i : Fin n) : Fin (width n d) :=
  Fin.natAdd _ (Fin.natAdd n i)

/-- Column of the positive or negative part of the intercept. -/
def interceptColumn (n d : Nat) (negative : Bool) : Fin (width n d) :=
  Fin.castAdd _ (Fin.natAdd (d + d) (partOf negative))

/-- Whether a label is positive. -/
def isPositive (labels : Vector α n) (i : Fin n) : Bool :=
  decide ((0 : α) < labels[i])

/-- Whether the positive labels are the majority; they are on a tie. -/
def positiveMajority (labels : Vector α n) : Bool :=
  let positive := (List.finRange n).countP fun i => isPositive labels i
  let negative := (List.finRange n).countP fun i => decide (labels[i] < (0 : α))
  decide (negative ≤ positive)

/-- The observations of the majority, in order. -/
def majority (labels : Vector α n) : List (Fin n) :=
  (List.finRange n).filter fun i => isPositive labels i == positiveMajority labels

/-- The starting basis: the first observation of the majority fixes the intercept, the minority has
    losses, and of the other majority observations as many as the minority counts have losses and
    the rest surpluses. -/
def start (d : Nat) (labels : Vector α n) : Vector (Fin (width n d)) n :=
  let major := majority labels
  let minority := n - major.length
  let anchor := major.head?
  let losing := (major.drop 1).take minority
  Vector.ofFn fun i =>
    if anchor = some i then interceptColumn n d (!positiveMajority labels)
    else if !major.contains i || losing.contains i then lossColumn d i
    else surplusColumn d i

/-- Whether a number is one of the two labels. -/
def isLabel (x : α) : Bool :=
  (decide (x ≤ 1) && decide (1 ≤ x)) || (decide (x ≤ -1) && decide (-1 ≤ x))

/-- The reduction of the sparse support vector machine. -/
def reduction (D : Design α n d) : Except (ReductionError α) (Reduction α n (width n d)) :=
  if D.response.all isLabel then do
    let inst ← (Instance.ofParts? (matrix D) (.fixed (Vector.replicate n (1 : α))) (cost n d)
      (start d D.response)).mapError .problem
    return {
      inst
      features := d
      intercept := some (2 * d, 2 * d + 1)
      name := "sparse_svm" }
  else
    .error (.design .label)

/-- What is logged about a program of the given size. -/
def record (rows cols : Nat) : Log.Record :=
  ⟨Log.Source.hinge.logger, Log.debug, s!"Sparse SVM LP: {rows} x {cols}"⟩

end ParametricLP.Hinge
