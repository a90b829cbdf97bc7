import Mathlib
import ParametricLP.Proofs.Mat.View

/-!
# Elimination and exchange give inverses

`solve?` takes a row out, clears the first column of the others and recurses on the system that
remains. Read backwards this is a proof that its answer solves the system: the rows that remain are
rows of the system less a multiple of the row taken out.

## Key results

- `toMatrix_mul_of_solve?`: an answer of `solve?` solves the system
- `mul_toMatrix_of_inverse?`: an answer of `inverse?` is an inverse
- `exchange_mul_submatrix`: `exchange` keeps the inverse when one column of the matrix is replaced
-/

namespace ParametricLP

open Matrix

namespace Mat

variable {m n k : ℕ}

/-! ## Elimination -/

/-- Every row but the one taken out stands somewhere among the others, in every block of rows at
    the same place. -/
theorem exists_getElem_dropRow {p i : Fin (m + 1)} (h : i ≠ p) :
    ∃ r : Fin m, ∀ {l : ℕ} (B : Mat ℚ (m + 1) l), (dropRow B p)[r] = B[i] := by
  cases i using Fin.cases with
  | zero =>
    -- Row `0` stands in for the row taken out.
    obtain ⟨r, rfl⟩ := Fin.exists_succ_eq.2 (Ne.symm h)
    exact ⟨r, fun B => by simp [dropRow]⟩
  | succ r =>
    exact ⟨r, fun B => by simp [dropRow, h]⟩

/-- Back substitution solves for the first unknown of a row with a nonzero first entry. -/
theorem pivot_mul_first {pivot target s : ℚ} (h : pivot ≠ 0) :
    pivot * ((target - s) / pivot) + s = target := by
  rw [mul_div_cancel₀ _ h]
  ring

/-- A row less a multiple of the row taken out is solved together with the row itself. -/
theorem head_mul_first {head pivot target s b u : ℚ} (h : pivot ≠ 0)
    (hminor : u - head / pivot * s = b - head / pivot * target) :
    head * ((target - s) / pivot) + u = b := by
  -- The smaller system is solved for the row less a multiple of the pivot row.
  have hu : u = b - head / pivot * target + head / pivot * s := by rw [← hminor]; ring
  rw [hu]
  field_simp
  ring

/-- An answer of `solve?` solves the system, entry by entry. -/
private theorem sum_getElem_mul_of_solve? {m : ℕ} {B : Mat ℚ m m} {R X : Mat ℚ m k}
    (h : solve? B R = some X) (i : Fin m) (j : Fin k) : ∑ l : Fin m, B[i][l] * X[l][j] = R[i][j] := by
  induction m with
  | zero => exact i.elim0
  | succ m ih =>
    simp only [solve?] at h
    split at h
    · exact nomatch h
    · next hpivot =>
      rw [Scalar.isZero_iff] at hpivot
      obtain ⟨below, hbelow, rfl⟩ := Option.map_eq_some_iff.1 h
      have hminor := ih hbelow
      rw [Fin.sum_univ_succ]
      -- The solution is the first unknown on top of the solution of the smaller system.
      simp only [getElem_fin, Vector.getElem_ofFn, rest, subMultiple, Scalar.sum_eq_sum,
        Fin.eta, Fin.cases_zero, Fin.cases_succ] at hminor hpivot ⊢
      by_cases hi : i = pivotRow B
      · -- The first unknown solves the row taken out.
        rw [hi]
        exact pivot_mul_first hpivot
      · -- Any other row is one of the smaller system plus a multiple of the row taken out.
        obtain ⟨r, hr⟩ := exists_getElem_dropRow hi
        have hrow := hminor r
        simp only [getElem_fin] at hr
        simp only [hr, sub_mul, Finset.sum_sub_distrib, mul_assoc, ← Finset.mul_sum] at hrow
        exact head_mul_first hpivot hrow

/-- An answer of `solve?` solves the system. -/
theorem toMatrix_mul_of_solve? {B : Mat ℚ m m} {R X : Mat ℚ m k} (h : solve? B R = some X) :
    B.toMatrix * X.toMatrix = R.toMatrix := by
  ext i j
  exact sum_getElem_mul_of_solve? h i j

/-! ## The inverse -/

/-- An answer of `inverse?` is an inverse. -/
theorem mul_toMatrix_of_inverse? {B X : Mat ℚ m m} {tol : ℚ} (h : B.inverse? tol = .ok X) :
    X.toMatrix * B.toMatrix = 1 := by
  simp only [inverse?] at h
  split at h
  · exact nomatch h
  · next Y hY =>
    split at h
    · simp only [Except.ok.injEq] at h
      subst h
      -- A right inverse of a square matrix is a left inverse.
      rw [mul_eq_one_comm, toMatrix_mul_of_solve? hY, toMatrix_identity]
    · exact nomatch h

/-! ## The exchange of one column -/

/-- The row of the column exchanged is divided by the pivot. -/
theorem toMatrix_exchange_row (X : Mat ℚ m k) (d : Vector ℚ m) (row : Fin m) (j : Fin k) :
    (X.exchange d row).toMatrix row j = X.toMatrix row j / d[row] := by
  simp [exchange]

/-- Every other row loses a multiple of it. -/
theorem toMatrix_exchange_of_ne (X : Mat ℚ m k) (d : Vector ℚ m) {i row : Fin m} (h : i ≠ row)
    (j : Fin k) : (X.exchange d row).toMatrix i j =
      X.toMatrix i j - d[i] * (X.toMatrix row j / d[row]) := by
  simp [exchange, subMultiple, h]

/-- Let `X` be the inverse of the columns `js` of `A`. When the column at `row` is replaced by
    column `j`, whose image under `X` has a nonzero entry there, then `exchange` gives the inverse of
    the new columns. -/
theorem exchange_mul_submatrix {A : Matrix (Fin m) (Fin n) ℚ} {X : Mat ℚ m m} {js : Fin m → Fin n}
    {d : Vector ℚ m} {row : Fin m} {j : Fin n} (hX : X.toMatrix * A.submatrix id js = 1)
    (hd : X.toMatrix *ᵥ A.col j = entries d) (hpivot : d[row] ≠ 0) :
    (X.exchange d row).toMatrix * A.submatrix id (Function.update js row j) = 1 := by
  -- Under the old inverse the kept columns are unit vectors, and the new one is `d`.
  have hkept (i l : Fin m) : ∑ r, X.toMatrix i r * A r (js l) = if i = l then 1 else 0 := by
    rw [← Matrix.one_apply, ← hX]
    rfl
  have hnew (i : Fin m) : ∑ r, X.toMatrix i r * A r j = d[i] := congrFun hd i
  have himage (i l : Fin m) : ∑ r, X.toMatrix i r * A r (Function.update js row j l) =
      if l = row then d[i] else if i = l then 1 else 0 := by
    by_cases hl : l = row
    · -- The new column is the one at `row`.
      rw [hl, Function.update_self, if_pos rfl]
      exact hnew i
    · rw [Function.update_of_ne hl, if_neg hl]
      exact hkept i l
  ext i l
  rw [Matrix.mul_apply, Matrix.one_apply]
  simp only [submatrix_apply, id_eq]
  by_cases hi : i = row
  · -- The pivot row is divided by the pivot.
    subst hi
    simp only [toMatrix_exchange_row, div_mul_eq_mul_div, ← Finset.sum_div, himage]
    by_cases hl : l = i
    · rw [if_pos hl, if_pos hl.symm, div_self hpivot]
    · rw [if_neg hl, if_neg (Ne.symm hl), zero_div]
  · -- From the others a multiple of it is taken off.
    simp only [toMatrix_exchange_of_ne X d hi, sub_mul, mul_assoc, div_mul_eq_mul_div,
      Finset.sum_sub_distrib, ← Finset.mul_sum, ← Finset.sum_div, himage]
    by_cases hl : l = row
    · subst hl
      rw [if_pos rfl, if_pos rfl, if_neg hi, div_self hpivot, mul_one, sub_self]
    · rw [if_neg hl, if_neg hl, if_neg (Ne.symm hl), zero_div, mul_zero, sub_zero]

end Mat

end ParametricLP
