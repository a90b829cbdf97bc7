import Mathlib
import ParametricLP.Proofs.Mat.Condition

/-!
# Arrow matrices

An arrow matrix has units on its diagonal, and besides them nonzero entries in one column only. Such
are the matrices of starting bases in which every row holds a variable of its own, except for one
that is shared. An arrow matrix is regular, and its inverse is an arrow matrix of the same absolute
values. Neither is larger in the one-norm than the sum down the shared column, which bounds the
condition number.

## Key results

- `IsArrow.mul_arrowInverse`: the inverse of an arrow matrix
- `IsArrow.inverse?_eq_ok`: an arrow matrix is inverted unless its shared column is huge
-/

namespace ParametricLP

open Matrix

namespace Mat

variable {m n : ℕ}

/-! ## Arrows -/

/-- The diagonal consists of units, and entries off it are zero except in column `a`. -/
structure IsArrow (B : Matrix (Fin m) (Fin m) ℚ) (a : Fin m) : Prop where
  abs_diag : ∀ i, |B i i| = 1
  off_diag : ∀ i l, i ≠ l → l ≠ a → B i l = 0

/-- The identity is an arrow matrix, whichever column is called the shared one. -/
theorem isArrow_one (a : Fin m) : IsArrow (1 : Matrix (Fin m) (Fin m) ℚ) a := by
  constructor
  · intro i
    rw [one_apply_eq, abs_one]
  · intro i l hil _
    exact one_apply_ne hil

/-- The columns of the identity have the size one. -/
theorem sum_abs_one (l : Fin m) : ∑ i, |(1 : Matrix (Fin m) (Fin m) ℚ) i l| = 1 := by
  rw [Fintype.sum_eq_single l, one_apply_eq, abs_one]
  intro i hi
  rw [one_apply_ne hi, abs_zero]

/-- What inverts an arrow matrix. -/
def arrowInverse (B : Matrix (Fin m) (Fin m) ℚ) (a : Fin m) : Mat ℚ m m :=
  ofFn fun i l => if i = l then B i i else if l = a then -(B i i * B i a * B a a) else 0

namespace IsArrow

variable {B : Matrix (Fin m) (Fin m) ℚ} {a : Fin m}

/-- The inverse has the same diagonal. -/
theorem arrowInverse_diag (B : Matrix (Fin m) (Fin m) ℚ) (a i : Fin m) :
    (arrowInverse B a).toMatrix i i = B i i := by
  simp [arrowInverse]

/-- The shared column of the inverse. -/
theorem arrowInverse_column {i : Fin m} (hi : i ≠ a) :
    (arrowInverse B a).toMatrix i a = -(B i i * B i a * B a a) := by
  simp [arrowInverse, hi]

/-- Elsewhere the inverse is zero. -/
theorem arrowInverse_off {i l : Fin m} (hil : i ≠ l) (hl : l ≠ a) :
    (arrowInverse B a).toMatrix i l = 0 := by
  simp [arrowInverse, hil, hl]

/-- Entries on the diagonal are their own inverses. -/
theorem mul_self_diag (h : IsArrow B a) (i : Fin m) : B i i * B i i = 1 := by
  rw [← abs_mul_abs_self, h.abs_diag, mul_one]

/-- An arrow matrix is inverted by another one. -/
theorem mul_arrowInverse (h : IsArrow B a) : B * (arrowInverse B a).toMatrix = 1 := by
  ext i l
  rw [Matrix.mul_apply]
  by_cases hl : l = a
  · rw [hl]
    by_cases hi : i = a
    · -- Row `a` has nothing off the diagonal.
      rw [hi, one_apply_eq, Fintype.sum_eq_single a, arrowInverse_diag, h.mul_self_diag]
      intro k hk
      rw [h.off_diag a k hk.symm hk, zero_mul]
    · -- Any other row meets column `a` twice, and the two cancel.
      rw [one_apply_ne hi, Fintype.sum_eq_add i a hi, arrowInverse_column hi, arrowInverse_diag]
      · have hunit := h.mul_self_diag i
        linear_combination -(B i a * B a a) * hunit
      · rintro k ⟨hki, hka⟩
        rw [h.off_diag i k hki.symm hka, zero_mul]
  · -- Columns other than `a` have one entry, so one product is left.
    rw [Fintype.sum_eq_single l, arrowInverse_diag]
    · by_cases hil : i = l
      · rw [hil, one_apply_eq, h.mul_self_diag]
      · rw [one_apply_ne hil, h.off_diag i l hil hl, zero_mul]
    · intro k hk
      rw [arrowInverse_off hk hl, mul_zero]

/-- The inverse is an arrow matrix as well. -/
theorem isArrow_arrowInverse (h : IsArrow B a) : IsArrow (arrowInverse B a).toMatrix a := by
  constructor
  · intro i
    rw [arrowInverse_diag, h.abs_diag]
  · intro i l hil hl
    exact arrowInverse_off hil hl

/-- The shared column keeps its absolute values. -/
theorem abs_arrowInverse_column (h : IsArrow B a) (i : Fin m) :
    |(arrowInverse B a).toMatrix i a| = |B i a| := by
  by_cases hi : i = a
  · rw [hi, arrowInverse_diag]
  · rw [arrowInverse_column hi, abs_neg, abs_mul, abs_mul, h.abs_diag, h.abs_diag, one_mul, mul_one]

/-- No column is larger than the shared one. -/
theorem sum_abs_le (h : IsArrow B a) (l : Fin m) : ∑ i, |B i l| ≤ ∑ i, |B i a| := by
  by_cases hl : l = a
  · rw [hl]
  · -- A column that is not shared consists of a unit.
    have hsingle : ∑ i, |B i l| = |B l l| := by
      apply Fintype.sum_eq_single
      intro i hi
      rw [h.off_diag i l hi hl, abs_zero]
    rw [hsingle, h.abs_diag l, ← h.abs_diag a]
    exact Finset.single_le_sum (fun i _ => abs_nonneg (B i a)) (Finset.mem_univ a)

/-- Columns picked for an arrow matrix are distinct. -/
theorem injective_of_submatrix {A : Matrix (Fin m) (Fin n) ℚ} {js : Fin m → Fin n}
    (h : IsArrow (A.submatrix id js) a) : Function.Injective js := by
  -- Of two columns one is not shared, and zero where the other has a unit.
  have hdistinct {i l : Fin m} (hne : i ≠ l) (hl : l ≠ a) : js i ≠ js l := by
    intro heq
    have hunit := h.abs_diag i
    have hzero := h.off_diag i l hne hl
    simp only [submatrix_apply, id_eq] at hunit hzero
    rw [heq, hzero, abs_zero] at hunit
    exact zero_ne_one hunit
  intro i l heq
  by_contra hne
  by_cases hl : l = a
  · have hi : i ≠ a := fun hi => hne (hi.trans hl.symm)
    exact hdistinct (Ne.symm hne) hi heq.symm
  · exact hdistinct hne hl heq

/-- An arrow matrix is inverted unless its shared column is huge. -/
theorem inverse?_eq_ok {B : Mat ℚ m m} (h : IsArrow B.toMatrix a)
    (hsum : ∑ i, |B.toMatrix i a| ≤ 10 ^ 6) :
    B.inverse? = .ok (arrowInverse B.toMatrix a) := by
  -- By its shared column the matrix is small in the one-norm, and so is its inverse.
  have hB : B.oneNorm ≤ 10 ^ 6 := by
    rw [oneNorm_le_iff (by positivity)]
    intro l
    exact (h.sum_abs_le l).trans hsum
  have hC : (arrowInverse B.toMatrix a).oneNorm ≤ 10 ^ 6 := by
    rw [oneNorm_le_iff (by positivity)]
    intro l
    have hle := h.isArrow_arrowInverse.sum_abs_le l
    simp only [h.abs_arrowInverse_column] at hle
    exact hle.trans hsum
  apply inverse?_eq_ok_of_mul_eq_one h.mul_arrowInverse
  -- The product of the norms stays below the reciprocal of the tolerance.
  have hproduct := mul_le_mul hB hC (oneNorm_nonneg _) (by positivity)
  have htol : (conditionTol : ℚ) = 1 / 10 ^ 12 := by
    unfold conditionTol
    norm_num
  rw [htol]
  linarith

end IsArrow

end Mat

end ParametricLP
