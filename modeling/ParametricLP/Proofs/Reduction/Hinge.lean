import Mathlib
import ParametricLP.Reduction.Hinge
import ParametricLP.Proofs.Instance
import ParametricLP.Proofs.Reduction.SplitResiduals

/-!
# The support vector machine by linear programming

The program of the support vector machine splits what the labelled predictions fall short of one,
and charges for falling short only. So its solutions at any `lam ≥ 0` are the fits with the least
hinge losses and `lam` times the absolute coefficients.

## Key results

- `max_eq_weighed`: the hinge loss weighs one side of a residual
- `represents_loss`: the program stands for the penalised hinge loss
- `solutions_separate`: its solutions are exactly the best fits
-/

namespace ParametricLP.Hinge

open Matrix SplitResiduals

variable {n d : ℕ} {D : Design ℚ n d} {lam : ℚ} {r : Reduction ℚ n (width n d)}

/-- The hinge losses of all observations, and `lam` times the absolute coefficients. -/
def loss (D : Design ℚ n d) (lam : ℚ) (f : Fit d) : ℚ :=
  ∑ i : Fin n, max 0 (1 - D.response[i] * f.predict D.matrix[i]) + lam * f.norm

/-- The observations multiplied by their labels. -/
def labelled (D : Design ℚ n d) : Mat ℚ n d :=
  Mat.ofFn fun i j => D.response[i] * D.matrix[i][j]

/-- The labels as a column. -/
def labels (D : Design ℚ n d) : Mat ℚ n 1 :=
  Mat.ofFn fun i _ => D.response[i]

/-- The entry of the column at an observation is the label. -/
theorem labels_apply (D : Design ℚ n d) (i : Fin n) :
    (labels D).toMatrix i 0 = D.response[i] := by
  simp [labels]

/-- The hinge loss charges for what a residual is above zero. -/
theorem max_eq_weighed (x : ℚ) : max 0 x = weighed 1 0 x := by
  rw [weighed, one_mul, zero_mul, add_zero, posPart_def]
  exact max_comm 0 x

/-- What a reduction for the support vector machine is made of. -/
theorem reduction_eq_ok_iff : reduction D = .ok r ↔
    D.response.all isLabel = true ∧ ∃ p, Instance.ofParts? (matrix D)
      (.fixed (Vector.replicate n (1 : ℚ))) (cost n d) (start d D.response) = .ok p ∧
        r = {
          inst := p
          features := d
          intercept := some (2 * d, 2 * d + 1)
          name := "sparse_svm" } := by
  unfold reduction
  by_cases hlabels : D.response.all isLabel = true
  · rw [if_pos hlabels, and_iff_right hlabels]
    exact Reduction.mapError_bind_eq_ok_iff
  · rw [if_neg hlabels]
    -- A response that is no label is refused.
    constructor
    · intro h
      exact nomatch h
    · intro h
      exact absurd h.1 hlabels

/-- The columns start with the coefficients and the intercept. -/
theorem startsWithFit (h : reduction D = .ok r) : r.StartsWithFit d true := by
  obtain ⟨-, p, -, rfl⟩ := reduction_eq_ok_iff.1 h
  exact ⟨rfl, rfl, rfl⟩

/-- The program splits what labelled predictions fall short of one. -/
theorem splitsResiduals (h : reduction D = .ok r) :
    r.inst.SplitsResiduals (labelled D) (labels D).signSplit (Vector.replicate n 1) 1 0 := by
  obtain ⟨-, p, hp, rfl⟩ := reduction_eq_ok_iff.1 h
  obtain ⟨-, hmatrix, hrhs, hcost, -⟩ := Instance.ofParts?_eq_ok_iff.1 hp
  exact ⟨hmatrix, hrhs, congrArg AffineVector.constant hcost, congrArg AffineVector.slope hcost⟩

/-- The intercept counts with the label of each observation. -/
theorem labels_mulVec (q : Fin (1 + 1) → ℚ) (i : Fin n) :
    ((labels D).signSplit.toMatrix *ᵥ q) i =
      D.response[i] * (readIntercept true q).getD 0 := by
  rw [Mat.signSplit_mulVec]
  simp [labels, Matrix.mulVec, dotProduct, readIntercept]

/-- What a fit leaves over is what its labelled predictions fall short of one. -/
theorem leftOver_eq (D : Design ℚ n d) (f : Fit d) (i : Fin n) :
    leftOver (labelled D) (fun i => D.response[i]) (Vector.replicate n 1) f i =
      1 - D.response[i] * f.predict D.matrix[i] := by
  have hsum : ((labelled D).toMatrix *ᵥ f.coef) i =
      D.response[i] * ∑ j : Fin d, D.matrix[i][j] * f.coef j := by
    simp [labelled, Matrix.mulVec, dotProduct, Finset.mul_sum, mul_assoc]
  simp only [leftOver, Fit.predict, hsum, getElem_fin, Vector.getElem_replicate]
  ring

/-- The program of the support vector machine stands for the penalised hinge loss. -/
theorem represents_loss (h : reduction D = .ok r) (hlam : 0 ≤ lam) :
    r.Represents lam {f | f.intercept.isSome = true} (loss D lam) := by
  have hrepresents := (splitsResiduals h).represents true (startsWithFit h)
    labels_mulVec zero_le_one le_rfl hlam
  -- The weighed parts of what is left over are the hinge losses.
  have hloss : (fun f => ∑ i, weighed 1 0 (leftOver (labelled D) (fun i => D.response[i])
      (Vector.replicate n 1) f i) + lam * f.norm) = loss D lam := by
    funext f
    simp only [leftOver_eq, ← max_eq_weighed]
    rfl
  rwa [hloss] at hrepresents

/-- At any `lam ≥ 0` the program costs at least the penalised hinge loss of what a feasible solution
    stands for, and no more for a suitable solution. So it is solved by exactly what stands for the
    best fits, and least cost and least loss are the same. -/
theorem solutions_separate (h : reduction D = .ok r) (hlam : 0 ≤ lam) :
    r.Represents lam {f | f.intercept.isSome = true} (loss D lam) ∧
      r.SameOptima lam {f | f.intercept.isSome = true} (loss D lam) := by
  have hrepresents := represents_loss h hlam
  exact ⟨hrepresents, hrepresents.sameOptima⟩

/-- Labels of both signs have a program. -/
theorem solutions_separate_threeObservations :
    ∃ r, reduction threeObservations.design = .ok r ∧ (0 : ℚ) ≤ 1 / 2 ∧
      r.Represents (1 / 2) {f | f.intercept.isSome = true}
        (loss threeObservations.design (1 / 2)) ∧
      r.SameOptima (1 / 2) {f | f.intercept.isSome = true}
        (loss threeObservations.design (1 / 2)) := by
  have hok : (reduction threeObservations.design).isOk = true := by cbv
  have hlam : (0 : ℚ) ≤ 1 / 2 := by norm_num
  cases h : reduction threeObservations.design with
  | error cause =>
    rw [h] at hok
    exact absurd hok Bool.false_ne_true
  | ok r => exact ⟨r, rfl, hlam, solutions_separate h hlam⟩

end ParametricLP.Hinge
