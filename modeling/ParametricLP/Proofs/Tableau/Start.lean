import Mathlib
import ParametricLP.Proofs.Mat.Arrow
import ParametricLP.Proofs.Tableau.Ties

/-!
# Starts that no tolerance refuses

The check of a starting tableau compares slopes and constants with tolerances of the caller's choice.
It never objects where every basic value and every reduced cost rises with slope one or stays at a
nonnegative constant: a tolerance below one takes a slope of one for what it is, and one above it
also bounds the constants. Such a tableau is optimal for all large `lam`, and a run that starts from
it ends with some other verdict.

## Key results

- `IsSettled.startFault?_eq_none`: no tolerance finds a fault
- `Traces.status_ne_infeasibleStart`: what a run ends with once it has started
- `IsSettled.startsOptimal`: what is known of a program with such a start
-/

namespace ParametricLP

open Matrix

variable {m n : ℕ}

/-! ## Settled functions -/

/-- The function rises with slope one, or stays at a nonnegative constant. -/
def Affine.IsSettled (e : Affine ℚ) : Prop :=
  e.slope = 1 ∨ e.slope = 0 ∧ 0 ≤ e.constant

namespace Affine.IsSettled

variable {e : Affine ℚ} {lam : ℚ}

/-- It is nonnegative from its constant's absolute value on. -/
theorem value_nonneg (h : e.IsSettled) (hlam : |e.constant| ≤ lam) : 0 ≤ e.value lam := by
  unfold value
  rcases h with hslope | ⟨hslope, hconstant⟩
  · rw [hslope, mul_one]
    linarith [neg_le_of_abs_le hlam]
  · rw [hslope, mul_zero, add_zero]
    exact hconstant

/-- Such a function does not rise faster than with slope one. -/
theorem abs_slope_le_one (h : e.IsSettled) : |e.slope| ≤ 1 := by
  rcases h with hslope | ⟨hslope, -⟩
  · rw [hslope, abs_one]
  · rw [hslope, abs_zero]
    exact zero_le_one

end Affine.IsSettled

/-- Slopes of at most one leave a relative tolerance for slopes as it is. -/
theorem AffineVector.tolerance_slope_of_isSettled {v : AffineVector ℚ n}
    (h : ∀ i, (v.get i).IsSettled) (tol : ℚ) : Scalar.tolerance tol v.slope = tol := by
  have hslopes : Scalar.maxAbs v.slope ≤ 1 := by
    rw [Scalar.maxAbs_le_iff zero_le_one]
    exact fun k => (h k).abs_slope_le_one
  rw [Scalar.tolerance, Scalar.atLeastOne_eq_max, max_eq_left hslopes, mul_one]

/-- Relative tolerances accept settled functions. -/
theorem AffineVector.nonnegAtInfinity_of_isSettled {v : AffineVector ℚ n}
    (h : ∀ i, (v.get i).IsSettled) {tol : ℚ} (htol : 0 ≤ tol) (i : Fin n) :
    (v.get i).nonnegAtInfinity (Scalar.tolerance tol v.constant)
      (Scalar.tolerance tol v.slope) = true := by
  have hslopeTol := tolerance_slope_of_isSettled h tol
  have hconstTol : 0 ≤ Scalar.tolerance tol v.constant := Scalar.tolerance_nonneg htol _
  simp only [Affine.nonnegAtInfinity, hslopeTol, Scalar.abs_eq_abs, Bool.or_eq_true,
    Bool.and_eq_true, decide_eq_true_eq]
  rcases h i with hslope | ⟨hslope, hconstant⟩
  · -- A slope of one counts as positive under a tolerance below one.
    rcases lt_or_ge tol 1 with hlt | hge
    · left
      rw [hslope]
      exact hlt
    · -- A larger tolerance takes it for zero, but then it bounds the constant too.
      right
      have hconst : |(v.get i).constant| ≤ Scalar.tolerance tol v.constant := by
        calc |(v.get i).constant| ≤ Scalar.maxAbs v.constant :=
              Scalar.abs_le_maxAbs v.constant i
          _ ≤ Scalar.atLeastOne (Scalar.maxAbs v.constant) := by
              rw [Scalar.atLeastOne_eq_max]
              exact le_max_right _ _
          _ ≤ Scalar.tolerance tol v.constant :=
              le_mul_of_one_le_left (zero_le_one.trans (Scalar.one_le_atLeastOne _)) hge
      rw [hslope, abs_one]
      exact ⟨hge, neg_le_of_abs_le hconst⟩
  · right
    rw [hslope, abs_zero]
    exact ⟨htol, by linarith⟩

/-! ## Settled tableaus -/

namespace Tableau

variable {p : Instance ℚ m n} {t : Tableau ℚ m n}

/-- All basic values and all reduced costs are settled. -/
structure IsSettled (t : Tableau ℚ m n) : Prop where
  values : ∀ i, (t.values.get i).IsSettled
  reducedCosts : ∀ j, (t.reducedCosts.get j).IsSettled

/-- No tolerance finds a fault with a settled tableau. -/
theorem IsSettled.startFault?_eq_none (h : t.IsSettled) {tol : ℚ} (htol : 0 ≤ tol) :
    t.startFault? tol = none := by
  rw [startFault?_eq_none_iff]
  constructor
  · rw [primalStartFault?_eq_none_iff]
    exact AffineVector.nonnegAtInfinity_of_isSettled h.values htol
  · rw [dualStartFault?_eq_none_iff]
    exact fun j => .inl (AffineVector.nonnegAtInfinity_of_isSettled h.reducedCosts htol j)

/-- A settled tableau is optimal for all large `lam`. -/
theorem IsSettled.exists_forall_optimalAt (h : t.IsSettled) :
    ∃ low, ∀ lam, low ≤ lam → t.OptimalAt lam := by
  refine ⟨max (Scalar.maxAbs t.values.constant) (Scalar.maxAbs t.reducedCosts.constant), ?_⟩
  -- Beyond all constants every function is nonnegative.
  intro lam hlam
  obtain ⟨hvalues, hreduced⟩ := max_le_iff.1 hlam
  constructor
  · intro i
    exact (h.values i).value_nonneg ((Scalar.abs_le_maxAbs _ i).trans hvalues)
  · intro j
    exact (h.reducedCosts j).value_nonneg ((Scalar.abs_le_maxAbs _ j).trans hreduced)

/-- Fixed multipliers take the same off the cost of a column at every `lam`. -/
theorem Valid.get_reducedCosts_of_dual (ht : t.Valid p) {y : Vector ℚ m}
    (hdual : ∀ lam, t.dual lam = y) (j : Fin n) : t.reducedCosts.get j =
      ⟨p.cost.constant[j] - (entries y ᵥ* p.matrix.toMatrix) j, p.cost.slope[j]⟩ := by
  apply Affine.ext_value
  intro lam
  rw [ht.value_reducedCosts, hdual, Instance.getElem_reducedCosts, getElem_fin,
    AffineVector.getElem_value]
  simp only [Affine.value, AffineVector.get]
  ring

/-- Reduced costs are settled under fixed multipliers that pay at most its cost for every column
    whose cost does not rise. -/
theorem Valid.isSettled_reducedCosts (ht : t.Valid p) {y : Vector ℚ m}
    (hdual : ∀ lam, t.dual lam = y)
    (hprice : ∀ j : Fin n, p.cost.slope[j] = 1 ∨ p.cost.slope[j] = 0 ∧
      (entries y ᵥ* p.matrix.toMatrix) j ≤ p.cost.constant[j]) (j : Fin n) :
    (t.reducedCosts.get j).IsSettled := by
  rw [ht.get_reducedCosts_of_dual hdual]
  rcases hprice j with hslope | ⟨hslope, hle⟩
  · exact .inl hslope
  · exact .inr ⟨hslope, sub_nonneg.2 hle⟩

end Tableau

/-! ## Runs from a settled start -/

variable {p : Instance ℚ m n} {cfg : Config ℚ} {run run' : Run ℚ m n} {verdict : Verdict ℚ n}

/-- No verdict before a breakpoint blames the start. -/
theorem Run.Approaches.status_ne_infeasibleStart (h : Approaches cfg run (.stopped verdict run')) :
    verdict.status ≠ .infeasibleStart := by
  cases h with
  | ended => exact nofun
  | full => exact nofun
  | cycling => exact nofun

/-- Nor does any at a breakpoint. -/
theorem Run.Crosses.status_ne_infeasibleStart {b : Breakpoint ℚ m n}
    (h : Crosses p cfg run b (.stopped verdict run')) : verdict.status ≠ .infeasibleStart := by
  cases h with
  | infeasible => exact nofun
  | unbounded => exact nofun
  | failed => exact nofun

/-- Once a run has started it never blames the start. -/
theorem Run.Traces.status_ne_infeasibleStart {k : ℕ} {o : Outcome ℚ m n}
    (h : Traces p cfg k run o) : o.verdict.status ≠ .infeasibleStart := by
  induction h with
  | stopped happroach => exact happroach.status_ne_infeasibleStart
  | exhausted happroach => exact nofun
  | halted happroach hcross => exact hcross.status_ne_infeasibleStart
  | crossed happroach hcross htrace ih => exact ih

/-- The problem starts from the tableau `t`, which holds distinct columns of a regular matrix and is
    optimal for all large `lam`, and which no run refuses, whatever its tolerance and its budgets. -/
structure Instance.StartsOptimal (p : Instance ℚ m n) (t : Tableau ℚ m n) : Prop where
  start_eq : Tableau.start p = .ok t
  basis_injective : Function.Injective (entries p.basis)
  det_ne_zero : (p.basisMatrix p.basis).toMatrix.det ≠ 0
  optimal : ∃ low, ∀ lam, low ≤ lam → t.OptimalAt lam
  accepted : ∀ cfg, ∃ o, solve p cfg = .ok o ∧ o.verdict.status ≠ .infeasibleStart

/-- A settled start is optimal and accepted. -/
theorem Tableau.IsSettled.startsOptimal {t : Tableau ℚ m n} (h : t.IsSettled)
    (hstart : start p = .ok t) : p.StartsOptimal t := by
  obtain ⟨ht, hbasis⟩ := valid_of_start hstart
  refine ⟨hstart, ?_, ?_, h.exists_forall_optimalAt, ?_⟩
  · rw [← hbasis]
    exact ht.basis_injective
  -- A matrix with a right inverse has a nonzero determinant.
  · have hinverse := ht.mul_inverse
    rw [hbasis, ← Mat.toMatrix_columns] at hinverse
    exact (isUnit_det_of_right_inverse hinverse).ne_zero
  · intro cfg
    obtain ⟨o, hsolve, hrun⟩ := exists_solves p cfg
    refine ⟨o, hsolve, ?_⟩
    -- Of the ways a run can go the first two are excluded by the start.
    cases hrun with
    | singular herror =>
      rw [hstart] at herror
      exact nomatch herror
    | refused hstart' hfault =>
      obtain rfl := Except.ok.inj (hstart.symm.trans hstart')
      rw [h.startFault?_eq_none cfg.tol_pos.le] at hfault
      exact nomatch hfault
    | traced _ _ htrace => exact htrace.status_ne_infeasibleStart

/-! ## Arrows -/

/-- A basis whose matrix is an arrow has a starting tableau, unless its shared column is huge. -/
theorem Instance.exists_start_of_isArrow {a : Fin m}
    (h : Mat.IsArrow (p.basisMatrix p.basis).toMatrix a)
    (hsum : ∑ i, |(p.basisMatrix p.basis).toMatrix i a| ≤ 10 ^ 6) :
    ∃ t, Tableau.start p = .ok t := by
  unfold Tableau.start Tableau.ofBasis Tableau.refactor
  dsimp only
  rw [h.inverse?_eq_ok hsum]
  exact ⟨_, rfl⟩

end ParametricLP
