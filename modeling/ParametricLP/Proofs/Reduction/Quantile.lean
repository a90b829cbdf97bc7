import Mathlib
import ParametricLP.Proofs.Instance
import ParametricLP.Proofs.Reduction.SplitResiduals

/-!
# Quantile regression by linear programming

The program of quantile regression splits residuals and weighs them by `tau` and `1 - tau`, which
makes their check losses. So its solutions at any `lam ≥ 0` are the fits with the least check losses
and `lam` times the absolute coefficients.

## Key results

- `checkLoss_eq_weighed`: the check loss weighs the two sides of a residual
- `represents_loss`: the program stands for the penalised check loss
- `solutions_best`: its solutions are exactly the best fits
-/

namespace ParametricLP.Quantile

open Matrix SplitResiduals

variable {n d : ℕ} {D : Design ℚ n d} {tau lam : ℚ} {intercept : Bool}
  {r : Reduction ℚ n (width n d intercept)}

/-- The check loss of a residual at level `tau`. -/
def checkLoss (tau x : ℚ) : ℚ :=
  x * (tau - if x < 0 then 1 else 0)

/-- The check losses of all residuals, and `lam` times the absolute coefficients. -/
def loss (D : Design ℚ n d) (tau lam : ℚ) (f : Fit d) : ℚ :=
  ∑ i : Fin n, checkLoss tau (D.response[i] - f.predict D.matrix[i]) + lam * f.norm

/-- The check loss charges `tau` above zero and `1 - tau` below. -/
theorem checkLoss_eq_weighed (tau x : ℚ) : checkLoss tau x = weighed tau (1 - tau) x := by
  unfold checkLoss weighed
  -- On either side of zero one of the two parts vanishes.
  rcases lt_or_ge x 0 with hx | hx
  · rw [if_pos hx, posPart_of_nonpos hx.le, negPart_of_nonpos hx.le]
    ring
  · rw [if_neg (not_lt.2 hx), posPart_of_nonneg hx, negPart_of_nonneg hx]
    ring

/-- What a reduction for quantile regression is made of. -/
theorem reduction_eq_ok_iff : reduction D tau intercept = .ok r ↔
    (0 < tau ∧ tau < 1) ∧ ∃ p, Instance.ofParts? (matrix D.matrix intercept) (.fixed D.response)
      (cost n d tau intercept) (start d D.response tau intercept) = .ok p ∧
        r = {
          inst := p
          features := d
          intercept := if intercept then some (2 * d, 2 * d + 1) else none
          name := "quantile_regression" } := by
  unfold reduction
  by_cases hlevel : 0 < tau ∧ tau < 1
  · rw [if_pos hlevel, and_iff_right hlevel]
    exact Reduction.mapError_bind_eq_ok_iff
  -- A level outside the unit interval is refused.
  · rw [if_neg hlevel]
    constructor
    · intro h
      exact nomatch h
    · intro h
      exact absurd h.1 hlevel

/-- The columns start with the coefficients and the intercept, if there is one. -/
theorem startsWithFit (h : reduction D tau intercept = .ok r) : r.StartsWithFit d intercept := by
  obtain ⟨-, p, -, rfl⟩ := reduction_eq_ok_iff.1 h
  exact ⟨rfl, rfl, rfl⟩

/-- The program splits the residuals of the responses. -/
theorem splitsResiduals (h : reduction D tau intercept = .ok r) :
    r.inst.SplitsResiduals D.matrix (interceptBlock n intercept) D.response tau (1 - tau) := by
  obtain ⟨-, p, hp, rfl⟩ := reduction_eq_ok_iff.1 h
  obtain ⟨-, hmatrix, hrhs, hcost, -⟩ := Instance.ofParts?_eq_ok_iff.1 hp
  exact ⟨hmatrix, hrhs, congrArg AffineVector.constant hcost, congrArg AffineVector.slope hcost⟩

/-- What the intercept counts for each observation. -/
def ones (n : ℕ) : Mat ℚ n 1 :=
  Mat.ofFn fun _ _ => 1

/-- Every entry of the column is one. -/
theorem ones_apply (i : Fin n) : (ones n).toMatrix i 0 = 1 := by
  simp [ones]

/-- The intercept counts once for every observation. -/
theorem interceptBlock_mulVec (q : Fin (interceptWidth intercept) → ℚ) (i : Fin n) :
    ((interceptBlock n intercept).toMatrix *ᵥ q) i =
      1 * (readIntercept intercept q).getD 0 := by
  cases intercept with
  | true =>
    apply (congrFun (Mat.signSplit_mulVec (ones n) q) i).trans
    simp [Matrix.mulVec, dotProduct, ones, readIntercept]
  | false =>
    -- Without an intercept there are no columns to add up.
    have hempty : IsEmpty (Fin (interceptWidth false)) := Fin.isEmpty
    simp [Matrix.mulVec, dotProduct, readIntercept]

/-- What a fit leaves over are its residuals. -/
theorem leftOver_eq (D : Design ℚ n d) (f : Fit d) (i : Fin n) :
    leftOver D.matrix (fun _ => 1) D.response f i = D.response[i] - f.predict D.matrix[i] := by
  simp only [leftOver, Fit.predict, Matrix.mulVec, dotProduct, Mat.toMatrix_apply]
  ring

/-- The program of quantile regression stands for the penalised check loss. -/
theorem represents_loss (h : reduction D tau intercept = .ok r) (hlam : 0 ≤ lam) :
    r.Represents lam {f | f.intercept.isSome = intercept} (loss D tau lam) := by
  obtain ⟨⟨hpos, hlt⟩, -⟩ := reduction_eq_ok_iff.1 h
  have hrepresents := (splitsResiduals h).represents intercept (startsWithFit h)
    interceptBlock_mulVec hpos.le (sub_nonneg.2 hlt.le) hlam
  -- The weighed parts of what is left over are the check losses.
  have hloss : (fun f => ∑ i, weighed tau (1 - tau) (leftOver D.matrix (fun _ => 1) D.response f i) +
      lam * f.norm) = loss D tau lam := by
    funext f
    simp only [leftOver_eq, ← checkLoss_eq_weighed]
    rfl
  rwa [hloss] at hrepresents

/-- At any `lam ≥ 0` the program costs at least the penalised check loss of what a feasible solution
    stands for, and no more for a suitable solution. So it is solved by exactly what stands for the
    best fits, and least cost and least loss are the same. -/
theorem solutions_best (h : reduction D tau intercept = .ok r) (hlam : 0 ≤ lam) :
    r.Represents lam {f | f.intercept.isSome = intercept} (loss D tau lam) ∧
      r.SameOptima lam {f | f.intercept.isSome = intercept} (loss D tau lam) := by
  have hrepresents := represents_loss h hlam
  exact ⟨hrepresents, hrepresents.sameOptima⟩

/-- The first quartile of three responses has a program. -/
theorem solutions_best_threeObservations :
    ∃ r, reduction threeObservations.design (1 / 4) true = .ok r ∧ (0 : ℚ) ≤ 1 / 2 ∧
      r.Represents (1 / 2) {f | f.intercept.isSome = true}
        (loss threeObservations.design (1 / 4) (1 / 2)) ∧
      r.SameOptima (1 / 2) {f | f.intercept.isSome = true}
        (loss threeObservations.design (1 / 4) (1 / 2)) := by
  have hok : (reduction threeObservations.design (1 / 4) true).isOk = true := by cbv
  have hlam : (0 : ℚ) ≤ 1 / 2 := by norm_num
  cases h : reduction threeObservations.design (1 / 4) true with
  | error cause =>
    rw [h] at hok
    exact absurd hok Bool.false_ne_true
  | ok r => exact ⟨r, rfl, hlam, solutions_best h hlam⟩

end ParametricLP.Quantile
