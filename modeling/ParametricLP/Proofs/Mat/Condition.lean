import Mathlib
import ParametricLP.Proofs.Mat.Permutation
import ParametricLP.Proofs.Mat.Singular

/-!
# Condition numbers

`Mat.inverse?` computes an inverse and refuses it where it is too large beside the matrix itself. In
exact arithmetic what it computes is the inverse, so what it refuses are the singular matrices and
those of large condition number, the product of the one-norms of a matrix and of its inverse.

## Key results

- `inverse?_eq_ok_of_mul_eq_one`: a matrix with a known inverse
- `inverse?_eq_ok_iff`: which matrices are inverted, and that the answer is the inverse
- `isLargestColumnSum_oneNorm`: the one-norm is the largest sum of a column
- `inverts_or_refuses`: the three answers of an inversion, and which matrices have each
-/

namespace ParametricLP

open Matrix

namespace Mat

variable {m n : ℕ}

/-! ## The one-norm -/

/-- The one-norm is bounded as the size of every column is. -/
theorem oneNorm_le_iff {A : Mat ℚ m n} {s : ℚ} (hs : 0 ≤ s) :
    A.oneNorm ≤ s ↔ ∀ j, ∑ i, |A.toMatrix i j| ≤ s := by
  have hcolumn (j : Fin n) : 0 ≤ ∑ i, |A.toMatrix i j| :=
    Finset.sum_nonneg fun i _ => abs_nonneg _
  unfold oneNorm
  rw [Scalar.maxAbs_le_iff hs]
  apply forall_congr'
  intro j
  -- Sums of sizes are computed with the operations of the model.
  rw [getElem_fin, Vector.getElem_ofFn, Scalar.sum_eq_sum]
  simp only [Scalar.abs_eq_abs]
  show abs (∑ i, |A.toMatrix i j|) ≤ s ↔ _
  rw [abs_of_nonneg (hcolumn j)]

/-- No matrix has a negative one-norm. -/
theorem oneNorm_nonneg (A : Mat ℚ m n) : 0 ≤ A.oneNorm :=
  Scalar.maxAbs_nonneg _

/-- `s` is the one-norm of a matrix: the largest of the sums of absolute values in its columns. -/
def IsLargestColumnSum (A : Matrix (Fin m) (Fin n) ℚ) (s : ℚ) : Prop :=
  IsGreatest (Set.range fun j => ∑ i, |A i j|) s

/-- Where there is a column, one of them attains the one-norm. -/
theorem isLargestColumnSum_oneNorm (A : Mat ℚ m (n + 1)) :
    IsLargestColumnSum A.toMatrix A.oneNorm := by
  have hle : ∀ j, ∑ i, |A.toMatrix i j| ≤ A.oneNorm := (oneNorm_le_iff A.oneNorm_nonneg).1 le_rfl
  -- Some column is at least as large as all others, and its size then bounds the norm as well.
  obtain ⟨top, htop⟩ := Finite.exists_max fun j => ∑ i, |A.toMatrix i j|
  have hnonneg : 0 ≤ ∑ i, |A.toMatrix i top| := Finset.sum_nonneg fun i _ => abs_nonneg _
  refine ⟨⟨top, le_antisymm (hle top) ((oneNorm_le_iff hnonneg).2 htop)⟩, ?_⟩
  rintro _ ⟨j, rfl⟩
  exact hle j

/-- The condition number in the one-norm. -/
noncomputable def conditionNumber (B : Mat ℚ m m) : ℚ :=
  B.oneNorm * (ofMatrix B.toMatrix⁻¹).oneNorm

/-- With a known inverse the condition number is read off the two matrices. -/
theorem conditionNumber_of_mul_eq_one {B C : Mat ℚ m m} (h : B.toMatrix * C.toMatrix = 1) :
    B.conditionNumber = B.oneNorm * C.oneNorm := by
  have hinverse : ofMatrix B.toMatrix⁻¹ = C := by
    apply toMatrix_injective
    rw [toMatrix_ofMatrix, Matrix.inv_eq_right_inv h]
  rw [conditionNumber, hinverse]

/-! ## Inverses -/

/-- A matrix with an inverse is inverted where the two are not too large together. -/
theorem inverse?_eq_ok_of_mul_eq_one {B C : Mat ℚ m m} {tol : ℚ}
    (h : B.toMatrix * C.toMatrix = 1) (hcondition : B.oneNorm * C.oneNorm * tol ≤ 1) :
    B.inverse? tol = .ok C := by
  have hdet : B.toMatrix.det ≠ 0 := (isUnit_det_of_right_inverse h).ne_zero
  cases hsolve : solve? B (identity m) with
  | none => exact absurd ((solve?_identity_eq_none_iff B).1 hsolve) hdet
  | some X =>
    -- What elimination finds is the inverse, because there is only one.
    have hX : B.toMatrix * X.toMatrix = 1 := by
      rw [toMatrix_mul_of_solve? hsolve, toMatrix_identity]
    have hXC : X = C := by
      apply toMatrix_injective
      calc X.toMatrix = C.toMatrix * B.toMatrix * X.toMatrix := by
            rw [mul_eq_one_comm.1 h, one_mul]
        _ = C.toMatrix := by rw [mul_assoc, hX, mul_one]
    have haccept : (Scalar.isFinite C.oneNorm &&
        !decide (1 < B.oneNorm * C.oneNorm * tol)) = true := by
      rw [decide_eq_false (not_lt.2 hcondition)]
      rfl
    simp only [inverse?, hsolve, hXC, haccept, ↓reduceIte]

/-- An inverse that is given is not too large. -/
theorem condition_le_of_inverse? {B X : Mat ℚ m m} {tol : ℚ} (h : B.inverse? tol = .ok X) :
    B.oneNorm * X.oneNorm * tol ≤ 1 := by
  simp only [inverse?] at h
  split at h
  · cases h
  · split at h
    · next haccept =>
      obtain rfl := Except.ok.inj h
      -- An answer is given only where the product of the norms with the tolerance is at most one.
      rw [Bool.and_eq_true, Bool.not_eq_true', decide_eq_false_iff_not, not_lt] at haccept
      exact haccept.2
    · cases h

/-- What is given is an inverse, and the condition number is not too large. -/
theorem inverse?_eq_ok_iff {B X : Mat ℚ m m} {tol : ℚ} : B.inverse? tol = .ok X ↔
    B.toMatrix * X.toMatrix = 1 ∧ B.conditionNumber * tol ≤ 1 := by
  constructor
  · intro h
    have hX : B.toMatrix * X.toMatrix = 1 := mul_eq_one_comm.1 (mul_toMatrix_of_inverse? h)
    refine ⟨hX, ?_⟩
    rw [conditionNumber_of_mul_eq_one hX]
    exact condition_le_of_inverse? h
  · rintro ⟨hX, hcondition⟩
    rw [conditionNumber_of_mul_eq_one hX] at hcondition
    exact inverse?_eq_ok_of_mul_eq_one hX hcondition

/-- A matrix is inverted exactly where it is regular and its condition number is not too large. -/
theorem exists_inverse?_eq_ok_iff {B : Mat ℚ m m} {tol : ℚ} :
    (∃ X, B.inverse? tol = .ok X) ↔ B.toMatrix.det ≠ 0 ∧ B.conditionNumber * tol ≤ 1 := by
  constructor
  · rintro ⟨X, hX⟩
    obtain ⟨hinverse, hcondition⟩ := inverse?_eq_ok_iff.1 hX
    exact ⟨(isUnit_det_of_right_inverse hinverse).ne_zero, hcondition⟩
  · rintro ⟨hdet, hcondition⟩
    refine ⟨ofMatrix B.toMatrix⁻¹, inverse?_eq_ok_iff.2 ⟨?_, hcondition⟩⟩
    rw [toMatrix_ofMatrix]
    exact Matrix.mul_nonsing_inv _ (isUnit_iff_ne_zero.2 hdet)

/-! ## Refusals -/

/-- A matrix is called singular where it is. -/
theorem inverse?_eq_zeroPivot_iff {B : Mat ℚ m m} {tol : ℚ} :
    B.inverse? tol = .error .zeroPivot ↔ B.toMatrix.det = 0 := by
  -- Elimination finds no pivot exactly where the determinant is zero.
  rw [← solve?_identity_eq_none_iff]
  unfold inverse?
  cases solve? B (identity m) with
  | none => simp
  | some X =>
    dsimp only
    split <;> simp

/-- A matrix is refused for one of two reasons. -/
theorem cause_of_inverse? {B : Mat ℚ m m} {tol : ℚ} {cause : SingularBasis}
    (h : B.inverse? tol = .error cause) : cause = .zeroPivot ∨ cause = .illConditioned := by
  unfold inverse? at h
  split at h
  · exact .inl (Except.error.inj h).symm
  · split at h
    · exact nomatch h
    · exact .inr (Except.error.inj h).symm

/-- A regular matrix that is not inverted is refused for its condition number. -/
theorem inverse?_eq_illConditioned_iff {B : Mat ℚ m m} {tol : ℚ} :
    B.inverse? tol = .error .illConditioned ↔
      B.toMatrix.det ≠ 0 ∧ 1 < B.conditionNumber * tol := by
  constructor
  · intro h
    -- A matrix gets one answer, so it is not refused for being singular as well.
    have hdet : B.toMatrix.det ≠ 0 := fun hzero => by
      rw [inverse?_eq_zeroPivot_iff.2 hzero] at h
      exact nomatch h
    refine ⟨hdet, lt_of_not_ge fun hcondition => ?_⟩
    obtain ⟨X, hX⟩ := exists_inverse?_eq_ok_iff.2 ⟨hdet, hcondition⟩
    rw [hX] at h
    exact nomatch h
  · rintro ⟨hdet, hcondition⟩
    cases h : B.inverse? tol with
    | ok X => exact absurd (inverse?_eq_ok_iff.1 h).2 hcondition.not_ge
    | error cause =>
      cases cause_of_inverse? h with
      | inl hzero => exact absurd (inverse?_eq_zeroPivot_iff.1 (hzero ▸ h)) hdet
      | inr hlarge => rw [hlarge]

/-- The two refusals are told apart by what they say. -/
theorem mapError_message_inverse?_iff {B : Mat ℚ m m} {tol : ℚ} {cause : SingularBasis}
    (hcause : cause = .zeroPivot ∨ cause = .illConditioned) :
    (B.inverse? tol).mapError SingularBasis.message = .error cause.message ↔
      B.inverse? tol = .error cause := by
  cases h : B.inverse? tol with
  | ok X => exact ⟨nofun, nofun⟩
  | error cause' =>
    -- Refusals for the shape have messages of their own, but never occur here.
    have hmessage : SingularBasis.message .zeroPivot ≠ SingularBasis.message .illConditioned := by
      decide
    obtain rfl | rfl := cause_of_inverse? h <;> obtain rfl | rfl := hcause <;>
      simp [Except.mapError, hmessage, hmessage.symm]

/-- A matrix with at least one row is called singular exactly where it is, and numerically singular
    exactly where it is regular and the product of its one-norm, that of its inverse and the
    tolerance exceeds one. Any other matrix is inverted, from both sides. -/
theorem inverts_or_refuses (B : Mat ℚ (m + 1) (m + 1)) (tol : ℚ) :
    ∃ norm inverseNorm, IsLargestColumnSum B.toMatrix norm ∧
      IsLargestColumnSum B.toMatrix⁻¹ inverseNorm ∧
      ((B.inverse? tol).mapError SingularBasis.message =
          .error "Basis matrix is singular: Singular matrix" ↔ B.toMatrix.det = 0) ∧
      ((B.inverse? tol).mapError SingularBasis.message =
          .error "Basis matrix is numerically singular" ↔
        B.toMatrix.det ≠ 0 ∧ 1 < norm * inverseNorm * tol) ∧
      (B.toMatrix.det ≠ 0 → norm * inverseNorm * tol ≤ 1 →
        ∃ X, B.inverse? tol = .ok X ∧ X.toMatrix * B.toMatrix = 1 ∧
          B.toMatrix * X.toMatrix = 1) := by
  -- The inverse is stored to take its norm.
  have hinverse := isLargestColumnSum_oneNorm (ofMatrix B.toMatrix⁻¹)
  rw [toMatrix_ofMatrix] at hinverse
  refine ⟨_, _, isLargestColumnSum_oneNorm B, hinverse, ?_, ?_, fun hdet hcondition => ?_⟩
  · exact (mapError_message_inverse?_iff (.inl rfl)).trans inverse?_eq_zeroPivot_iff
  · exact (mapError_message_inverse?_iff (.inr rfl)).trans inverse?_eq_illConditioned_iff
  · obtain ⟨X, hX⟩ := exists_inverse?_eq_ok_iff.2 ⟨hdet, hcondition⟩
    exact ⟨X, hX, mul_toMatrix_of_inverse? hX, (inverse?_eq_ok_iff.1 hX).1⟩

end Mat

end ParametricLP
