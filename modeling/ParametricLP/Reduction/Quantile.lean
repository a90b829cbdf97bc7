import ParametricLP.Log.Record
import ParametricLP.Reduction.Basic

/-! # Quantile regression with an absolute-value penalty

The fit minimises the check loss `r * (tau - (r < 0))` of the residuals plus `lam` times the sum of
the absolute coefficients. Residuals are split into `u - v` and coefficients into two nonnegative
parts, so that the columns are

`beta⁺ (d) | beta⁻ (d) | intercept pair | u (n) | v (n)`,

without the pair where no intercept is fitted. Only the cost of the coefficients depends on `lam`.
For large `lam` all coefficients are zero, and the intercept is an order statistic of the responses.
-/

namespace ParametricLP.Quantile

variable {α : Type} [Scalar α] {n d : Nat}

/-- Number of columns of the intercept. -/
def interceptWidth (intercept : Bool) : Nat :=
  if intercept then 1 + 1 else 0

/-- Number of columns of the program. -/
abbrev width (n d : Nat) (intercept : Bool) : Nat :=
  d + d + interceptWidth intercept + (n + n)

/-- The columns of the intercept: ones and minus ones. -/
def interceptBlock (n : Nat) : (intercept : Bool) → Mat α n (interceptWidth intercept)
  | true => Mat.signSplit (Mat.ofFn fun _ (_ : Fin 1) => 1)
  | false => Mat.ofFn fun _ _ => 0

/-- The constraint matrix. -/
def matrix (X : Mat α n d) (intercept : Bool) : Mat α n (width n d intercept) :=
  (X.signSplit.beside (interceptBlock n intercept)).beside (Mat.identity n).signSplit

/-- Check loss of the residuals; the penalty grows with `lam`. -/
def cost (n d : Nat) (tau : α) (intercept : Bool) : AffineVector α (width n d intercept) :=
  { constant := Vector.replicate (d + d + interceptWidth intercept) (0 : α) ++
      (Vector.replicate n tau ++ Vector.replicate n (1 - tau))
    slope := (Vector.replicate (d + d) (1 : α) ++
        Vector.replicate (interceptWidth intercept) (0 : α)) ++
      Vector.replicate (n + n) (0 : α) }

/-- Column of the positive part of residual `i`. -/
def above (d : Nat) (intercept : Bool) (i : Fin n) : Fin (width n d intercept) :=
  Fin.natAdd _ (Fin.castAdd n i)

/-- Column of the negative part of residual `i`. -/
def below (d : Nat) (intercept : Bool) (i : Fin n) : Fin (width n d intercept) :=
  Fin.natAdd _ (Fin.natAdd n i)

/-- Column of the positive or negative part of the intercept. -/
def interceptColumn (n d : Nat) (negative : Bool) : Fin (width n d true) :=
  Fin.castAdd _ (Fin.natAdd (d + d) (partOf negative))

/-- Observations in ascending order of their response, equal ones as they come. -/
def order (y : Vector α n) : List (Fin n) :=
  (List.finRange n).mergeSort fun i j => decide (y[i] ≤ y[j])

/-- Position of the starting intercept among the ordered responses: the whole part of `tau * n`, at
    most the last one. -/
def position (n : Nat) (tau : α) : Nat :=
  ((List.range (n - 1)).filter fun k => decide (((k + 1 : Nat) : α) ≤ tau * (n : α))).length

/-- Starting basis without an intercept: each residual by its sign. -/
def startWithout (d : Nat) (y : Vector α n) : Vector (Fin (width n d false)) n :=
  Vector.ofFn fun i => if 0 ≤ y[i] then above d false i else below d false i

/-- Starting basis with an intercept: the observation that fixes the intercept is fitted exactly,
    those ordered before it lie below the fit and the others above. -/
def startWith (d : Nat) (y : Vector α n) (tau : α) : Vector (Fin (width n d true)) n :=
  let order := order y
  let position := position n tau
  let anchor := order[position]?
  let before := order.take position
  Vector.ofFn fun i =>
    if anchor = some i then interceptColumn n d (decide ¬ 0 ≤ y[i])
    else if before.contains i then below d true i
    else above d true i

/-- The starting basis. -/
def start (d : Nat) (y : Vector α n) (tau : α) :
    (intercept : Bool) → Vector (Fin (width n d intercept)) n
  | true => startWith d y tau
  | false => startWithout d y

/-- The reduction of quantile regression at level `tau`. -/
def reduction (D : Design α n d) (tau : α) (intercept : Bool) :
    Except (ReductionError α) (Reduction α n (width n d intercept)) :=
  if 0 < tau ∧ tau < 1 then do
    let inst ← (Instance.ofParts? (matrix D.matrix intercept) (.fixed D.response)
      (cost n d tau intercept) (start d D.response tau intercept)).mapError .problem
    return {
      inst
      features := d
      intercept := if intercept then some (2 * d, 2 * d + 1) else none
      name := "quantile_regression" }
  else
    .error (.design (.level tau))

/-- What is logged about a program of the given size. -/
def record (num : α → String) (tau : α) (rows cols : Nat) : Log.Record :=
  ⟨Log.Source.quantile.logger, Log.debug,
    s!"Quantile regression LP (tau={num tau}): {rows} x {cols}"⟩

end ParametricLP.Quantile
