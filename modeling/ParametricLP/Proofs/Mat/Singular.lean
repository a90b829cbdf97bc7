import Mathlib
import ParametricLP.Proofs.Mat.Inverse

/-!
# Elimination fails on singular matrices only

The row taken out has the largest first entry. If that is zero the first column is zero, and the
matrix maps the first unit vector to zero. If the smaller system fails its matrix maps some vector to
zero, which back substitution extends. So a failure shows a vector that the matrix maps to zero, and a
regular matrix is always inverted.

## Key results

- `exists_mulVec_eq_zero_of_solve?`: what a failure of `solve?` shows
- `solve?_identity_eq_none_iff`: elimination fails exactly on singular matrices
-/

namespace ParametricLP

open Matrix

namespace Mat

variable {m n k : ℕ}

/-! ## The row taken out -/

/-- A search that moves on to larger values only ends at the largest. -/
private theorem le_foldl_largest {ι : Type} (g : ι → ℚ) (next : Fin m → ι) (is : List (Fin m))
    (start : ι) :
    g start ≤ g (is.foldl (fun best i => if g best < g (next i) then next i else best) start) ∧
      ∀ i ∈ is, g (next i) ≤
        g (is.foldl (fun best i => if g best < g (next i) then next i else best) start) := by
  induction is generalizing start with
  | nil => exact ⟨le_rfl, nofun⟩
  | cons i is ih =>
    rw [List.foldl_cons, List.forall_mem_cons]
    split
    -- Whether the search moves on or not, its candidate is at least as good as before.
    · next hlt =>
      obtain ⟨hstart, hrest⟩ := ih (next i)
      exact ⟨hlt.le.trans hstart, hstart, hrest⟩
    · next hge =>
      obtain ⟨hstart, hrest⟩ := ih start
      exact ⟨hstart, (not_lt.1 hge).trans hstart, hrest⟩

/-- No row has a larger first entry than the one taken out. -/
theorem abs_le_abs_pivotRow (B : Mat ℚ (m + 1) (n + 1)) (i : Fin (m + 1)) :
    |B.toMatrix i 0| ≤ |B.toMatrix (pivotRow B) 0| := by
  have hlargest := le_foldl_largest (fun i => Scalar.abs (B.toMatrix i 0)) Fin.succ
    (List.finRange m) 0
  -- The search starts at row 0 and looks at the others in order.
  rw [← Scalar.abs_eq_abs, ← Scalar.abs_eq_abs]
  unfold pivotRow
  rw [Fin.foldl_eq_foldl_finRange]
  cases i using Fin.cases with
  | zero => exact hlargest.1
  | succ i => exact hlargest.2 i (List.mem_finRange i)

/-! ## What a failure shows -/

/-- Where the largest first entry is zero the first column is. -/
theorem col_zero_of_pivotRow {B : Mat ℚ (m + 1) (n + 1)} (h : B.toMatrix (pivotRow B) 0 = 0) :
    B.toMatrix.col 0 = 0 := by
  funext i
  -- All first entries are as small as the one taken out.
  have hle := abs_le_abs_pivotRow B i
  rw [h, abs_zero] at hle
  exact abs_nonpos_iff.1 hle

/-- A failure of `solve?` shows a vector that the matrix maps to zero. -/
theorem exists_mulVec_eq_zero_of_solve? {B : Mat ℚ m m} {R : Mat ℚ m k} (h : solve? B R = none) :
    ∃ v ≠ 0, B.toMatrix *ᵥ v = 0 := by
  induction m with
  | zero => exact nomatch h
  | succ m ih =>
    simp only [solve?] at h
    split at h
    · next hpivot =>
      rw [Scalar.isZero_iff] at hpivot
      refine ⟨Pi.single 0 1, Pi.single_ne_zero_iff.2 one_ne_zero, ?_⟩
      rw [mulVec_single_one, col_zero_of_pivotRow hpivot]
    · next hpivot =>
      rw [Scalar.isZero_iff] at hpivot
      obtain ⟨v, hv, hminor⟩ := ih (Option.map_eq_none_iff.1 h)
      -- The first entry is the one by which the row taken out maps the vector to zero.
      let s := ∑ l : Fin m, B[pivotRow B][l.succ] * v l
      let first := ((0 : ℚ) - s) / B[pivotRow B][0]
      refine ⟨Fin.cons first v, fun hzero => hv ?_, ?_⟩
      · -- If the vector were zero, so would be the one found for the smaller system.
        funext l
        exact congrFun hzero l.succ
      · funext i
        have hsum : (B.toMatrix *ᵥ Fin.cons first v) i =
            B[i][0] * first + ∑ l : Fin m, B[i][l.succ] * v l :=
          Fin.sum_univ_succ _
        rw [hsum]
        by_cases hi : i = pivotRow B
        · -- The first entry was chosen for this row.
          rw [hi]
          exact pivot_mul_first hpivot
        · -- Any other row is one of the smaller system plus a multiple of the row taken out.
          obtain ⟨r, hr⟩ := exists_getElem_dropRow hi
          have hrow := congrFun hminor r
          simp only [Matrix.mulVec, dotProduct, toMatrix_apply, getElem_fin, Vector.getElem_ofFn,
            rest, subMultiple, Fin.eta, Pi.zero_apply] at hrow
          simp only [getElem_fin] at hr
          simp only [hr, sub_mul, Finset.sum_sub_distrib, mul_assoc, ← Finset.mul_sum] at hrow
          refine head_mul_first hpivot ?_
          rw [Pi.zero_apply, mul_zero, sub_zero]
          exact hrow

/-- Elimination against the identity fails exactly on singular matrices. -/
theorem solve?_identity_eq_none_iff (B : Mat ℚ m m) :
    solve? B (identity m) = none ↔ B.toMatrix.det = 0 := by
  rw [← exists_mulVec_eq_zero_iff]
  refine ⟨exists_mulVec_eq_zero_of_solve?, fun ⟨v, hv, hzero⟩ => ?_⟩
  cases hsolve : solve? B (identity m) with
  | none => rfl
  | some X =>
    -- An answer would be an inverse, and map the image of the vector back to it.
    have hleft : X.toMatrix * B.toMatrix = 1 := by
      rw [mul_eq_one_comm, toMatrix_mul_of_solve? hsolve, toMatrix_identity]
    refine absurd ?_ hv
    rw [← one_mulVec v, ← hleft, ← mulVec_mulVec, hzero, mulVec_zero]

end Mat

end ParametricLP
