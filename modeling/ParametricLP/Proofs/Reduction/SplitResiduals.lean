import Mathlib
import ParametricLP.Reduction.Quantile
import ParametricLP.Proofs.Reduction.Represents

/-!
# Programs that split residuals

Quantile regression and the support vector machine both weigh what a fit leaves up on either side
and penalise the absolute coefficients in proportion to `lam`. Their programs have the columns

`beta⁺ (d) | beta⁻ (d) | intercept (w) | u (n) | v (n)`

and say that coefficients and intercept fall short of the target by `u - v`. `SplitsResiduals`
describes such a program. Its solutions cost at least the weighed loss of what they stand for, and
`SplitResiduals.lifted` costs no more.

## Key results

- `SplitsResiduals.feasible_iff`, `SplitsResiduals.objective_eq`: equations and cost by blocks
- `SplitsResiduals.loss_le_objective`: a solution costs at least its loss
- `SplitsResiduals.feasible_lifted`, `SplitsResiduals.objective_lifted`: and may cost just that
-/

namespace ParametricLP

open Matrix

variable {n d w : ℕ}

/-! ## Blocks of a solution -/

namespace SplitResiduals

/-- Parts of the coefficients. -/
def coefPart (z : Vector ℚ (d + d + w + (n + n))) : Fin (d + d) → ℚ :=
  fun j => entries z (Fin.castAdd (n + n) (Fin.castAdd w j))

/-- What the columns of the intercept hold. -/
def interceptPart (z : Vector ℚ (d + d + w + (n + n))) : Fin w → ℚ :=
  fun j => entries z (Fin.castAdd (n + n) (Fin.natAdd (d + d) j))

/-- Parts of the residuals. -/
def residualPart (z : Vector ℚ (d + d + w + (n + n))) : Fin (n + n) → ℚ :=
  fun j => entries z (Fin.natAdd (d + d + w) j)

/-- The solution with the given coefficients, intercept columns and residuals, nothing of it both
    positive and negative. -/
def lifted (beta : Fin d → ℚ) (q : Fin w → ℚ) (residual : Fin n → ℚ) :
    Vector ℚ (d + d + w + (n + n)) :=
  Vector.ofFn (Fin.append (Fin.append (split beta) q) (split residual))

variable (beta : Fin d → ℚ) (q : Fin w → ℚ) (residual : Fin n → ℚ)

@[simp] theorem coefPart_lifted : coefPart (lifted beta q residual) = split beta := by
  funext j
  simp only [coefPart, lifted, entries_ofFn, Fin.append_left]

@[simp] theorem interceptPart_lifted : interceptPart (lifted beta q residual) = q := by
  funext j
  simp only [interceptPart, lifted, entries_ofFn, Fin.append_left, Fin.append_right]

@[simp] theorem residualPart_lifted : residualPart (lifted beta q residual) = split residual := by
  funext j
  simp only [residualPart, lifted, entries_ofFn, Fin.append_right]

/-- Such a solution is nonnegative if the columns of the intercept are. -/
theorem lifted_nonneg (hq : ∀ j, 0 ≤ q j) (j : Fin (d + d + w + (n + n))) :
    0 ≤ (lifted beta q residual)[j] := by
  have hcoef := append_nonneg (split_nonneg beta) hq
  have hall := append_nonneg hcoef (split_nonneg residual)
  simpa [lifted] using hall j

/-! ### The intercept -/

/-- The intercept that its columns stand for, if there is one. -/
def readIntercept :
    (intercept : Bool) → (Fin (Quantile.interceptWidth intercept) → ℚ) → Option ℚ
  | true, q => some (signed (k := 1) q 0)
  | false, _ => none

/-- The parts of an intercept, where it has columns. -/
def writeIntercept (x : ℚ) :
    (intercept : Bool) → Fin (Quantile.interceptWidth intercept) → ℚ
  | true => split (k := 1) fun _ => x
  | false => nofun

/-- There is an intercept to be read where there are columns for it. -/
theorem isSome_readIntercept (intercept : Bool)
    (q : Fin (Quantile.interceptWidth intercept) → ℚ) :
    (readIntercept intercept q).isSome = intercept := by
  cases intercept with
  | true => rfl
  | false => rfl

/-- The parts of an intercept are nonnegative. -/
theorem writeIntercept_nonneg (x : ℚ) (intercept : Bool)
    (j : Fin (Quantile.interceptWidth intercept)) : 0 ≤ writeIntercept x intercept j := by
  cases intercept with
  | true => exact split_nonneg (k := 1) _ j
  | false => exact nomatch j

/-- An intercept is read as it was written. -/
theorem readIntercept_writeIntercept (x : Option ℚ) :
    readIntercept x.isSome (writeIntercept (x.getD 0) x.isSome) = x := by
  cases x with
  | none => rfl
  | some x =>
    simp only [Option.isSome_some, Option.getD_some, readIntercept, writeIntercept, signed_split]

end SplitResiduals

/-! ## The weighed loss -/

/-- A number weighed by `up` above zero and by `down` below. -/
def weighed (up down x : ℚ) : ℚ :=
  up * x⁺ + down * x⁻

/-- A number is never the difference of two others that weigh less. -/
theorem weighed_sub_le {up down u v : ℚ} (hup : 0 ≤ up) (hdown : 0 ≤ down) (hu : 0 ≤ u)
    (hv : 0 ≤ v) : weighed up down (u - v) ≤ up * u + down * v := by
  -- Taking something off makes the positive part smaller.
  have hpos : (u - v)⁺ ≤ u := by
    rw [posPart_def, sup_le_iff]
    constructor <;> linarith
  have hneg : (u - v)⁻ ≤ v := by
    rw [negPart_def, sup_le_iff]
    constructor <;> linarith
  unfold weighed
  have hleft := mul_le_mul_of_nonneg_left hpos hup
  have hright := mul_le_mul_of_nonneg_left hneg hdown
  linarith

/-! ## Programs -/

open SplitResiduals

/-- The matrix of a program that splits residuals. -/
abbrev SplitResiduals.matrix (X : Mat ℚ n d) (C : Mat ℚ n w) : Mat ℚ n (d + d + w + (n + n)) :=
  (X.signSplit.beside C).beside (Mat.identity n).signSplit

/-- The program of fitting `X` and the intercept columns `C` to the target `y`, residuals weighed by
    `up` above zero and by `down` below. -/
structure Instance.SplitsResiduals (p : Instance ℚ n (d + d + w + (n + n))) (X : Mat ℚ n d)
    (C : Mat ℚ n w) (y : Vector ℚ n) (up down : ℚ) : Prop where
  matrix_eq : p.matrix = SplitResiduals.matrix X C
  rhs_eq : p.rhs = .fixed y
  constant_eq : p.cost.constant = Vector.replicate (d + d + w) (0 : ℚ) ++
    (Vector.replicate n up ++ Vector.replicate n down)
  slope_eq : p.cost.slope = (Vector.replicate (d + d) (1 : ℚ) ++ Vector.replicate w (0 : ℚ)) ++
    Vector.replicate (n + n) (0 : ℚ)

namespace Instance.SplitsResiduals

variable {p : Instance ℚ n (d + d + w + (n + n))} {X : Mat ℚ n d} {C : Mat ℚ n w} {y : Vector ℚ n}
  {up down lam : ℚ} {z : Vector ℚ (d + d + w + (n + n))}

/-- The equations, block by block. -/
theorem mulVec_eq (h : p.SplitsResiduals X C y up down)
    (z : Vector ℚ (d + d + w + (n + n))) : p.matrix.toMatrix *ᵥ entries z =
      X.toMatrix *ᵥ signed (coefPart z) + C.toMatrix *ᵥ interceptPart z +
        signed (residualPart z) := by
  rw [h.matrix_eq, Mat.beside_mulVec, Mat.beside_mulVec, Mat.signSplit_mulVec,
    Mat.signSplit_mulVec, Mat.toMatrix_identity, one_mulVec]
  rfl

/-- Only the parts of residuals have a fixed cost. -/
theorem entries_constant (h : p.SplitsResiduals X C y up down) : entries p.cost.constant =
    Fin.append (fun _ => 0) (Fin.append (fun _ => up) fun _ => down) := by
  rw [h.constant_eq, entries_append, entries_append, entries_replicate, entries_replicate,
    entries_replicate]

/-- Only the parts of coefficients have a cost that is proportional to `lam`. -/
theorem entries_slope (h : p.SplitsResiduals X C y up down) : entries p.cost.slope =
    Fin.append (Fin.append (fun _ => 1) fun _ => 0) fun _ => 0 := by
  rw [h.slope_eq, entries_append, entries_append, entries_replicate, entries_replicate,
    entries_replicate]

/-- The target does not depend on `lam`. -/
theorem entries_rhs (h : p.SplitsResiduals X C y up down) (lam : ℚ) :
    entries (p.rhs.value lam) = entries y := by
  rw [h.rhs_eq, AffineVector.entries_value_fixed]

/-- Feasible solutions, block by block. -/
theorem feasible_iff (h : p.SplitsResiduals X C y up down) : p.Feasible lam z ↔
    X.toMatrix *ᵥ signed (coefPart z) + C.toMatrix *ᵥ interceptPart z + signed (residualPart z) =
      entries y ∧ ∀ j : Fin (d + d + w + (n + n)), 0 ≤ z[j] := by
  unfold Feasible
  rw [mulVec_eq_rhs_iff, h.mulVec_eq, h.entries_rhs]

/-- The cost of a solution, block by block. -/
theorem objective_eq (h : p.SplitsResiduals X C y up down) : p.objective lam z =
    lam * ∑ j, coefPart z j + ∑ i : Fin n, (up * residualPart z (Fin.castAdd n i) +
      down * residualPart z (Fin.natAdd n i)) := by
  -- The fixed costs weigh the residuals, and the penalty counts the coefficients.
  have hconstant : entries p.cost.constant ⬝ᵥ entries z =
      ∑ i : Fin n, (up * residualPart z (Fin.castAdd n i) +
        down * residualPart z (Fin.natAdd n i)) := by
    rw [h.entries_constant, append_dotProduct, append_dotProduct]
    simp only [const_dotProduct, zero_mul, zero_add]
    rw [Finset.sum_add_distrib, Finset.mul_sum, Finset.mul_sum]
    rfl
  have hslope : entries p.cost.slope ⬝ᵥ entries z = ∑ j, coefPart z j := by
    rw [h.entries_slope, append_dotProduct, append_dotProduct]
    simp only [const_dotProduct, zero_mul, one_mul, add_zero]
    rfl
  unfold objective
  rw [dot_eq_dotProduct, AffineVector.entries_value_eq_add, add_dotProduct, smul_dotProduct,
    hconstant, hslope, smul_eq_mul, add_comm]

/-- A solution costs at least the loss of what it stands for. -/
theorem loss_le_objective (h : p.SplitsResiduals X C y up down) (hup : 0 ≤ up)
    (hdown : 0 ≤ down) (hlam : 0 ≤ lam) (hz : p.Feasible lam z) :
    ∑ i, weighed up down ((entries y - X.toMatrix *ᵥ signed (coefPart z) -
        C.toMatrix *ᵥ interceptPart z) i) + lam * ∑ j, |signed (coefPart z) j| ≤
      p.objective lam z := by
  obtain ⟨hequations, hnonneg⟩ := h.feasible_iff.1 hz
  -- By the equations the residuals are the differences of their parts.
  have hresidual : entries y - X.toMatrix *ᵥ signed (coefPart z) - C.toMatrix *ᵥ interceptPart z =
      signed (residualPart z) := by
    rw [← hequations]
    abel
  -- Of all ways to split a residual its own two parts weigh least.
  have hweighed : ∑ i, weighed up down (signed (residualPart z) i) ≤
      ∑ i : Fin n, (up * residualPart z (Fin.castAdd n i) +
        down * residualPart z (Fin.natAdd n i)) := by
    apply Finset.sum_le_sum
    intro i _
    exact weighed_sub_le hup hdown (hnonneg _) (hnonneg _)
  have habs : ∑ j, |signed (coefPart z) j| ≤ ∑ j, coefPart z j :=
    sum_abs_signed_le fun j => hnonneg _
  have hpenalty := mul_le_mul_of_nonneg_left habs hlam
  rw [hresidual, h.objective_eq]
  linarith

variable {q : Fin w → ℚ}

/-- Coefficients and an intercept extend to a solution by the residuals that they leave. -/
theorem feasible_lifted (h : p.SplitsResiduals X C y up down) (lam : ℚ) (beta : Fin d → ℚ)
    (hq : ∀ j, 0 ≤ q j) : p.Feasible lam
      (lifted beta q (entries y - X.toMatrix *ᵥ beta - C.toMatrix *ᵥ q)) := by
  rw [h.feasible_iff]
  constructor
  · simp only [coefPart_lifted, interceptPart_lifted, residualPart_lifted, signed_split]
    abel
  · exact lifted_nonneg beta q _ hq

/-- It costs just their loss. -/
theorem objective_lifted (h : p.SplitsResiduals X C y up down) (beta : Fin d → ℚ)
    (residual : Fin n → ℚ) :
    p.objective lam (lifted beta q residual) =
      ∑ i, weighed up down (residual i) + lam * ∑ j, |beta j| := by
  rw [h.objective_eq, coefPart_lifted, residualPart_lifted, sum_split, add_comm]
  simp only [split_castAdd, split_natAdd]
  rfl

end Instance.SplitsResiduals

/-! ## Reductions -/

variable {intercept : Bool}
  {r : Reduction ℚ n (d + d + Quantile.interceptWidth intercept + (n + n))}

/-- A solution stands for the coefficients and the intercept that its first blocks hold. -/
theorem Reduction.StartsWithFit.projectsTo (hr : r.StartsWithFit d intercept)
    (z : Vector ℚ (d + d + Quantile.interceptWidth intercept + (n + n))) :
    r.ProjectsTo z ⟨signed (coefPart z), readIntercept intercept (interceptPart z)⟩ := by
  cases intercept with
  | true => exact hr.project_of_true (show d + d + 1 < d + d + (1 + 1) + (n + n) by omega) z
  | false => exact hr.project_of_false (show d + d ≤ d + d + 0 + (n + n) by omega) z

/-- What is left of the target by a fit whose intercept counts `weight i` times for row `i`. -/
def leftOver (X : Mat ℚ n d) (weight : Fin n → ℚ) (y : Vector ℚ n) (f : Fit d) (i : Fin n) : ℚ :=
  y[i] - (X.toMatrix *ᵥ f.coef) i - weight i * f.intercept.getD 0

/-- What coefficients and intercept columns leave over is what the fit they stand for does. -/
theorem sub_eq_leftOver {X : Mat ℚ n d} {C : Mat ℚ n (Quantile.interceptWidth intercept)}
    {weight : Fin n → ℚ} {y : Vector ℚ n}
    (hC : ∀ q i, (C.toMatrix *ᵥ q) i = weight i * (readIntercept intercept q).getD 0)
    (beta : Fin d → ℚ) (q : Fin (Quantile.interceptWidth intercept) → ℚ) :
    entries y - X.toMatrix *ᵥ beta - C.toMatrix *ᵥ q =
      leftOver X weight y ⟨beta, readIntercept intercept q⟩ := by
  funext i
  rw [Pi.sub_apply, Pi.sub_apply, hC]
  rfl

variable (intercept) in
/-- A program that splits residuals represents the fits that make their weighed loss and `lam` times
    their absolute coefficients small. -/
theorem Instance.SplitsResiduals.represents {X : Mat ℚ n d}
    {C : Mat ℚ n (Quantile.interceptWidth intercept)} {weight : Fin n → ℚ} {y : Vector ℚ n}
    {up down lam : ℚ} (h : r.inst.SplitsResiduals X C y up down)
    (hr : r.StartsWithFit d intercept)
    (hC : ∀ q i, (C.toMatrix *ᵥ q) i = weight i * (readIntercept intercept q).getD 0)
    (hup : 0 ≤ up) (hdown : 0 ≤ down) (hlam : 0 ≤ lam) :
    r.Represents lam {f | f.intercept.isSome = intercept} fun f =>
      ∑ i, weighed up down (leftOver X weight y f i) + lam * f.norm := by
  have hleft (beta : Fin d → ℚ) (q : Fin (Quantile.interceptWidth intercept) → ℚ) (i : Fin n) :=
    congrFun (sub_eq_leftOver (X := X) (y := y) hC beta q) i
  constructor
  -- A feasible solution costs at least the loss of what it splits.
  · intro z hz
    have hle := h.loss_le_objective hup hdown hlam hz
    simp only [hleft] at hle
    exact ⟨_, isSome_readIntercept intercept _, hr.projectsTo z, hle⟩
  · intro f hf
    -- A fit is the projection of the solution that splits it without waste.
    obtain ⟨beta, x⟩ := f
    obtain rfl : x.isSome = intercept := hf
    have hq := writeIntercept_nonneg (x.getD 0) x.isSome
    have hfeasible := h.feasible_lifted lam beta hq
    have hproject := hr.projectsTo (lifted beta (writeIntercept (x.getD 0) x.isSome)
      (entries y - X.toMatrix *ᵥ beta - C.toMatrix *ᵥ writeIntercept (x.getD 0) x.isSome))
    rw [coefPart_lifted, interceptPart_lifted, signed_split, readIntercept_writeIntercept]
      at hproject
    refine ⟨_, hfeasible, hproject, ?_⟩
    rw [h.objective_lifted]
    simp only [hleft, readIntercept_writeIntercept]
    rfl

end ParametricLP
