import Mathlib
import ParametricLP.Proofs.Mat.Permutation
import ParametricLP.Proofs.Tableau.Solution

/-!
# Tableaus of a reordered problem

The constraints of a problem may be listed in another order, and so may the columns of its starting
basis. The tableau then has its rows in the order of the basis and its multipliers in the order of the
constraints; the reduced costs are those of columns and stay where they are. Every operation on
tableaus commutes with such a reordering, and fails where it failed before.

## Key results

- `refresh_reorder`, `refactor_reorder`, `pivot_reorder`: the operations on tableaus
- `start_reorder`: the tableau of the starting basis
- `Valid.reorder`, `Valid.primal_reorder`: a reordered tableau has the same solution
-/

namespace ParametricLP

variable {m n : ℕ}

/-- The problem with its constraints in the order `π` and its starting basis in the order `σ`. -/
def Instance.reorder (p : Instance ℚ m n) (π σ : Equiv.Perm (Fin m)) : Instance ℚ m n where
  matrix := p.matrix.permute π 1
  rhs := p.rhs.permute π
  cost := p.cost
  basis := permuted p.basis σ
  rows_pos := p.rows_pos
  basis_injective i j h := by
    rw [getElem_permuted, getElem_permuted] at h
    exact σ.injective (p.basis_injective _ _ h)

/-- The tableau with its rows in the order `σ` and its multipliers in the order `π`. -/
def Tableau.reorder (t : Tableau ℚ m n) (π σ : Equiv.Perm (Fin m)) : Tableau ℚ m n where
  basis := permuted t.basis σ
  isBasic := t.isBasic
  inverse := t.inverse.permute σ π
  values := t.values.permute σ
  duals := t.duals.permute π
  reducedCosts := t.reducedCosts
  updates := t.updates

namespace Tableau

open Matrix

variable {p : Instance ℚ m n} {t : Tableau ℚ m n} (π σ : Equiv.Perm (Fin m))

@[simp] theorem basis_reorder (t : Tableau ℚ m n) :
    (t.reorder π σ).basis = permuted t.basis σ := rfl

@[simp] theorem inverse_reorder (t : Tableau ℚ m n) :
    (t.reorder π σ).inverse = t.inverse.permute σ π := rfl

@[simp] theorem values_reorder (t : Tableau ℚ m n) :
    (t.reorder π σ).values = t.values.permute σ := rfl

/-! ## What follows from the inverse -/

/-- The same columns are marked in whatever order they are held. -/
theorem marks_permuted (basis : Vector (Fin n) m) : marks (permuted basis σ) = marks basis := by
  refine Vector.ext fun j hj => ?_
  rw [getElem_marks, getElem_marks, Bool.eq_iff_iff, Vector.contains_iff_mem,
    Vector.contains_iff_mem, mem_permuted_iff]

/-- The matrix of the reordered basis has its rows and its columns reordered. -/
theorem basisMatrix_reorder (p : Instance ℚ m n) (basis : Vector (Fin n) m) :
    (p.reorder π σ).basisMatrix (permuted basis σ) = (p.basisMatrix basis).permute π σ := by
  refine Vector.ext fun i hi => Vector.ext fun l hl => ?_
  simp [Instance.basisMatrix, Instance.reorder, Mat.permute, permuted]

/-- What follows from the reordered inverse is reordered likewise. -/
theorem refresh_reorder (p : Instance ℚ m n) (t : Tableau ℚ m n) :
    (t.reorder π σ).refresh (p.reorder π σ) = (t.refresh p).reorder π σ := by
  have hduals : (p.cost.take (permuted t.basis σ)).transformRow (t.inverse.permute σ π) =
      ((p.cost.take t.basis).transformRow t.inverse).permute π := by
    rw [AffineVector.take_permuted, AffineVector.transformRow_permute]
  -- The prices of the columns do not depend on the order of the constraints.
  have hpriced (duals : AffineVector ℚ m) :
      (duals.permute π).transformRow (p.matrix.permute π 1) = duals.transformRow p.matrix := by
    rw [AffineVector.transformRow_permute, AffineVector.permute_one]
  unfold refresh reorder Instance.reorder
  dsimp only
  rw [hduals, hpriced, marks_permuted, AffineVector.transform_permute]

/-- Computing the inverse afresh fails for a reordered basis where it failed before. -/
theorem refactor_reorder (p : Instance ℚ m n) (t : Tableau ℚ m n) :
    (t.reorder π σ).refactor (p.reorder π σ) = (t.refactor p).map fun t => t.reorder π σ := by
  unfold refactor
  rw [basis_reorder, basisMatrix_reorder, Mat.inverse?_permute]
  cases (p.basisMatrix t.basis).inverse? with
  | error cause => rfl
  | ok X => exact congrArg Except.ok (refresh_reorder π σ p { t with inverse := X, updates := 0 })

/-- The inverse computed afresh depends on the basis and its marks only. -/
theorem refactor_congr {t t' : Tableau ℚ m n} (hbasis : t.basis = t'.basis)
    (hmarks : t.isBasic = t'.isBasic) : t.refactor p = t'.refactor p := by
  unfold refactor refresh
  rw [hbasis, hmarks]

/-- The reordered problem starts from the reordered tableau. -/
theorem start_reorder (p : Instance ℚ m n) :
    start (p.reorder π σ) = (start p).map fun t => t.reorder π σ := by
  unfold start ofBasis
  rw [← refactor_reorder]
  -- Both tableaus to be refactored have the same columns and marks.
  exact refactor_congr rfl (marks_permuted σ p.basis)

/-! ## Rows and columns -/

/-- The entries of a column are listed by the new rows. -/
theorem column_reorder (p : Instance ℚ m n) (t : Tableau ℚ m n) (j : Fin n) :
    (t.reorder π σ).column (p.reorder π σ) j = permuted (t.column p j) σ := by
  unfold column reorder Instance.reorder
  dsimp only
  rw [Mat.column_permute, Mat.mulVec_permute]
  rfl

/-- A row has the same entries under its new name. -/
theorem row_reorder (p : Instance ℚ m n) (t : Tableau ℚ m n) (row : Fin m) :
    (t.reorder π σ).row (p.reorder π σ) (σ.symm row) = t.row p row := by
  unfold Tableau.row reorder Instance.reorder
  dsimp only
  rw [Mat.row_permute, Mat.vecMul_permute, permuted_one, σ.apply_symm_apply]

/-! ## Pivots -/

/-- A row is set in the reordered basis under its new name. -/
theorem permuted_set (v : Vector (Fin n) m) (row : Fin m) (entering : Fin n) :
    (permuted v σ).set (σ.symm row) entering (σ.symm row).isLt =
      permuted (v.set row entering row.isLt) σ := by
  refine entries_injective ?_
  rw [entries_set, entries_permuted, entries_permuted, entries_set, Function.update_comp_equiv]

/-- The exchange of a column is made in the row's new place. -/
theorem swap_reorder (t : Tableau ℚ m n) (row : Fin m) (entering : Fin n) :
    (t.reorder π σ).swap (σ.symm row) entering = (t.swap row entering).reorder π σ := by
  have hleaving : (permuted t.basis σ)[σ.symm row] = t.basis[row] := by
    rw [getElem_permuted, σ.apply_symm_apply]
  unfold swap reorder
  dsimp only
  rw [permuted_set]
  simp only [hleaving]

/-- A pivot in a row's new place leads to the reordered tableau, or fails where it failed before. -/
theorem pivot_reorder (p : Instance ℚ m n) (t : Tableau ℚ m n) (every : ℕ) (row : Fin m)
    (entering : Fin n) :
    (t.reorder π σ).pivot (p.reorder π σ) every (σ.symm row) entering =
      (t.pivot p every row entering).map fun t => t.reorder π σ := by
  rcases Nat.lt_or_ge (t.updates + 1) every with hlt | hle
  · -- The correction of the inverse is reordered with it.
    have hlt' : (t.reorder π σ).updates + 1 < every := hlt
    rw [pivot_of_lt _ _ hlt, pivot_of_lt _ _ hlt', swap_reorder, column_reorder, inverse_reorder,
      Mat.exchange_permute]
    exact congrArg Except.ok (refresh_reorder π σ p { t.swap row entering with
      inverse := t.inverse.exchange (t.column p entering) row })
  · -- An inverse computed afresh is that of the reordered basis.
    have hle' : every ≤ (t.reorder π σ).updates + 1 := hle
    rw [pivot_of_le _ _ hle, pivot_of_le _ _ hle', swap_reorder, refactor_reorder]

/-! ## The solution -/

/-- A reordered tableau is valid for the reordered problem. -/
theorem Valid.reorder (ht : t.Valid p) : (t.reorder π σ).Valid (p.reorder π σ) := by
  refine ⟨?_, ?_, ?_⟩
  -- Which columns are held does not depend on their order.
  · exact ht.isBasic_eq.trans (marks_permuted σ t.basis).symm
  · have hbasis : (p.reorder π σ).matrix.toMatrix.submatrix id (entries (t.reorder π σ).basis) =
        (p.matrix.toMatrix.submatrix id (entries t.basis)).submatrix π σ := by
      -- Reordering the rows of the basis matrix is all that happens to it.
      show (p.matrix.permute π 1).toMatrix.submatrix id (entries (permuted t.basis σ)) = _
      rw [Mat.toMatrix_permute, entries_permuted, submatrix_submatrix, submatrix_submatrix]
      rfl
    show (t.inverse.permute σ π).toMatrix * _ = 1
    rw [hbasis, Mat.toMatrix_permute, submatrix_mul_equiv, ht.inverse_mul, submatrix_one_equiv]
  · rw [refresh_reorder, ht.refresh_eq]

/-- The solution does not depend on how the constraints and the basis are listed. -/
theorem Valid.primal_reorder (ht : t.Valid p) (lam : ℚ) :
    (t.reorder π σ).primal lam = t.primal lam := by
  refine ht.eq_primal ?_ fun j hj => ?_
  · have hequations := (ht.reorder π σ).primal_equations lam
    -- The equations are the same ones in another order.
    refine permuted_injective π ?_
    dsimp only
    rw [← Mat.mulVec_permute _ _ π 1, ← AffineVector.value_permute, permuted_one]
    exact hequations
  · exact primal_of_notMem (fun hmem => hj (mem_permuted_iff.1 hmem)) lam

/-- The multipliers are listed in the order of the constraints. -/
theorem dual_reorder (t : Tableau ℚ m n) (lam : ℚ) :
    (t.reorder π σ).dual lam = permuted (t.dual lam) π :=
  AffineVector.value_permute t.duals π lam

end Tableau

end ParametricLP
