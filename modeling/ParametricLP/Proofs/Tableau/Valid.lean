import Mathlib
import ParametricLP.Proofs.Mat.Inverse
import ParametricLP.Proofs.Tableau.Columns

/-!
# Tableau invariant preservation

A tableau is valid for a problem when its inverse is that of the columns it holds and all else
follows from the inverse. The starting tableau is valid, and so is a tableau after a pivot on a
nonzero entry, whether its inverse was corrected or computed afresh. A valid tableau is determined by
its basis, up to the count of corrections.

## Key results

- `valid_of_start`, `valid_of_pivot`: every tableau of a run is valid
- `Valid.basis_injective`: a valid tableau holds distinct columns
- `Valid.eq_of_basis_eq`: a valid tableau is determined by its basis
-/

namespace ParametricLP

namespace Tableau

open Matrix

variable {m n : ℕ} {p : Instance ℚ m n} {t t' : Tableau ℚ m n}

/-- The inverse of a valid tableau is that of the columns held, the marks are those of the basis, and
    values, multipliers and reduced costs are the ones that follow. -/
structure Valid (p : Instance ℚ m n) (t : Tableau ℚ m n) : Prop where
  isBasic_eq : t.isBasic = marks t.basis
  inverse_mul : t.inverse.toMatrix * p.matrix.toMatrix.submatrix id (entries t.basis) = 1
  refresh_eq : t.refresh p = t

namespace Valid

/-- The inverse is an inverse from the right as well. -/
theorem mul_inverse (ht : t.Valid p) :
    p.matrix.toMatrix.submatrix id (entries t.basis) * t.inverse.toMatrix = 1 :=
  mul_eq_one_comm.1 ht.inverse_mul

/-- A valid tableau holds distinct columns. -/
theorem basis_injective (ht : t.Valid p) : Function.Injective (entries t.basis) := by
  intro i j hij
  by_contra hne
  -- Equal columns have equal images under the inverse, but these are different unit vectors.
  have hi : (1 : Matrix (Fin m) (Fin m) ℚ) i i = 1 := Matrix.one_apply_eq i
  have hj : (1 : Matrix (Fin m) (Fin m) ℚ) i j = 0 := Matrix.one_apply_ne hne
  rw [← ht.inverse_mul, Matrix.mul_apply] at hi hj
  simp only [submatrix_apply, id_eq, hij] at hi hj
  rw [hj] at hi
  exact absurd hi zero_ne_one

/-- A column is marked exactly when a row holds it. -/
theorem isBasic_iff (ht : t.Valid p) (j : Fin n) :
    t.isBasic[j] = true ↔ ∃ i, entries t.basis i = j := by
  rw [ht.isBasic_eq, getElem_fin, getElem_marks, Vector.contains_iff_mem, mem_iff_exists_entries]

/-- Off the basis are the columns that are not held. -/
theorem mem_nonbasic_iff (ht : t.Valid p) {j : Fin n} : j ∈ t.nonbasic ↔ j ∉ t.basis :=
  Tableau.mem_nonbasic_iff ht.isBasic_eq

/-- The basic values follow from the inverse. -/
theorem values_eq (ht : t.Valid p) : t.values = p.rhs.transform t.inverse :=
  (congrArg Tableau.values ht.refresh_eq).symm

/-- The multipliers follow from the inverse and the costs of the basis. -/
theorem duals_eq (ht : t.Valid p) : t.duals = (p.cost.take t.basis).transformRow t.inverse :=
  (congrArg Tableau.duals ht.refresh_eq).symm

/-- The reduced costs follow from the multipliers, and are set to zero on the basis. -/
theorem get_reducedCosts (ht : t.Valid p) (j : Fin n) : t.reducedCosts.get j =
    if j ∈ t.basis then ⟨0, 0⟩
    else (p.cost.get j).sub ((t.duals.transformRow p.matrix).get j) := by
  have h := get_reducedCosts_refresh p t j
  simp only [Vector.contains_iff_mem] at h
  rwa [ht.refresh_eq] at h

end Valid

/-! ## Making a tableau valid -/

/-- Refreshing makes a tableau valid whose marks and inverse are right. -/
theorem valid_refresh (hmarks : t.isBasic = marks t.basis)
    (hinv : t.inverse.toMatrix * p.matrix.toMatrix.submatrix id (entries t.basis) = 1) :
    (t.refresh p).Valid p :=
  ⟨hmarks, hinv, rfl⟩

/-- An inverse computed afresh makes a tableau valid whose marks are right. -/
theorem valid_of_refactor (hmarks : t.isBasic = marks t.basis) (h : t.refactor p = .ok t') :
    t'.Valid p ∧ t'.basis = t.basis := by
  simp only [refactor, Except.map] at h
  split at h
  · cases h
  · next X hX =>
    simp only [Except.ok.injEq] at h
    subst h
    have hinv := Mat.mul_toMatrix_of_inverse? hX
    rw [Instance.basisMatrix, Mat.toMatrix_columns] at hinv
    exact ⟨valid_refresh hmarks hinv, rfl⟩

/-- The tableau of the starting basis is valid. -/
theorem valid_of_start (h : start p = .ok t) : t.Valid p ∧ t.basis = p.basis :=
  valid_of_refactor rfl h

/-! ## Pivots -/

/-- The direction of a column is its image under the inverse. -/
theorem entries_column (t : Tableau ℚ m n) (j : Fin n) :
    entries (t.column p j) = t.inverse.toMatrix *ᵥ p.matrix.toMatrix.col j := by
  unfold column
  rw [Mat.entries_mulVec, Mat.entries_column]

/-- A row of the tableau is the row of the inverse times the matrix. -/
theorem entries_row (t : Tableau ℚ m n) (i : Fin m) :
    entries (t.row p i) = t.inverse.toMatrix i ᵥ* p.matrix.toMatrix := by
  unfold row
  rw [Mat.entries_vecMul, Mat.entries_row]

/-- The entry in which a row and a column of the tableau meet. -/
theorem getElem_row (t : Tableau ℚ m n) (i : Fin m) (j : Fin n) :
    (t.row p i)[j] = (t.column p j)[i] := by
  have hrow := congrFun (entries_row (p := p) t i) j
  have hcol := congrFun (entries_column (p := p) t j) i
  exact hrow.trans hcol.symm

/-- A pivot for which the inverse is due is made afresh from the columns held after it. -/
theorem pivot_of_le {every : ℕ} (row : Fin m) (entering : Fin n) (h : every ≤ t.updates + 1) :
    t.pivot p every row entering = (t.swap row entering).refactor p :=
  if_pos h

/-- A pivot for which it is not due corrects the inverse, and never fails. -/
theorem pivot_of_lt {every : ℕ} (row : Fin m) (entering : Fin n) (h : t.updates + 1 < every) :
    t.pivot p every row entering = .ok (refresh p { t.swap row entering with
      inverse := t.inverse.exchange (t.column p entering) row }) :=
  if_neg (not_le.2 h)

/-- A pivot on a nonzero entry keeps a tableau valid. -/
theorem valid_of_pivot {every : ℕ} {row : Fin m} {entering : Fin n} (ht : t.Valid p)
    (hpivot : (t.column p entering)[row] ≠ 0) (h : t.pivot p every row entering = .ok t') :
    t'.Valid p := by
  have hmarks := isBasic_swap ht.isBasic_eq ht.basis_injective row entering
  rcases Nat.lt_or_ge (t.updates + 1) every with hlt | hle
  · -- The inverse was corrected.
    rw [pivot_of_lt row entering hlt] at h
    obtain rfl := Except.ok.inj h
    refine valid_refresh hmarks ?_
    show (t.inverse.exchange (t.column p entering) row).toMatrix *
      p.matrix.toMatrix.submatrix id (entries (t.basis.set row entering row.isLt)) = 1
    rw [entries_set]
    exact Mat.exchange_mul_submatrix ht.inverse_mul (entries_column t entering).symm hpivot
  · -- The inverse was computed afresh.
    rw [pivot_of_le row entering hle] at h
    exact (valid_of_refactor hmarks h).1

/-! ## What determines a valid tableau -/

/-- Refreshing depends on the basis, the marks, the inverse and the count of corrections only. -/
private theorem refresh_congr (hbasis : t.basis = t'.basis) (hmarks : t.isBasic = t'.isBasic)
    (hinv : t.inverse = t'.inverse) (hupdates : t.updates = t'.updates) :
    t.refresh p = t'.refresh p := by
  unfold refresh
  rw [hbasis, hmarks, hinv, hupdates]

/-- A valid tableau is determined by its basis, up to the count of corrections. -/
theorem Valid.eq_of_basis_eq (ht : t.Valid p) (ht' : t'.Valid p) (h : t.basis = t'.basis) :
    t' = { t with updates := t'.updates } := by
  have hinv : t.inverse = t'.inverse := by
    -- An inverse from the left and one from the right are the same.
    refine Mat.toMatrix_injective (left_inv_eq_right_inv ht.inverse_mul ?_)
    rw [h]
    exact ht'.mul_inverse
  have hmarks : t.isBasic = t'.isBasic := by rw [ht.isBasic_eq, ht'.isBasic_eq, h]
  calc t' = t'.refresh p := ht'.refresh_eq.symm
    _ = ({ t with updates := t'.updates } : Tableau ℚ m n).refresh p :=
        refresh_congr h.symm hmarks.symm hinv.symm rfl
    _ = { t.refresh p with updates := t'.updates } := rfl
    _ = { t with updates := t'.updates } := by rw [ht.refresh_eq]

end Tableau

end ParametricLP
