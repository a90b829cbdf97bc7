import Mathlib
import ParametricLP.Proofs.Affine
import ParametricLP.Proofs.Mat.Singular

/-!
# Rows and columns in another order

Products, norms, inverses and the exchange of a column do not see how rows and columns are numbered:
each of them commutes with permutations of its arguments. For the inverse this rests on elimination
failing on singular matrices only, because the rows are taken out in another order.

## Key results

- `Mat.mulVec_permute`, `Mat.vecMul_permute`: products
- `Scalar.tolerance_permuted`, `Mat.oneNorm_permute`: tolerances and norms
- `Mat.inverse?_permute`: the inverse, and why there is none
- `Mat.exchange_permute`: the exchange of one column
-/

namespace ParametricLP

open Matrix

variable {α : Type} {m n k : ℕ}

/-- The entries of a vector in another order. -/
def permuted (v : Vector α n) (σ : Equiv.Perm (Fin n)) : Vector α n :=
  Vector.ofFn fun i => v[σ i]

/-- A matrix with its rows and its columns in another order. -/
def Mat.permute (A : Mat α m n) (π : Equiv.Perm (Fin m)) (ρ : Equiv.Perm (Fin n)) : Mat α m n :=
  Mat.ofFn fun i j => A[π i][ρ j]

/-- A vector of affine functions in another order. -/
def AffineVector.permute (v : AffineVector α n) (σ : Equiv.Perm (Fin n)) : AffineVector α n :=
  ⟨permuted v.constant σ, permuted v.slope σ⟩

/-! ## Entries -/

/-- The entries in another order are the entries after the permutation. -/
theorem entries_permuted (v : Vector α n) (σ : Equiv.Perm (Fin n)) :
    entries (permuted v σ) = entries v ∘ σ :=
  entries_ofFn _

/-- The entry at a position is the one that was moved there. -/
theorem getElem_permuted (v : Vector α n) (σ : Equiv.Perm (Fin n)) (i : Fin n) :
    (permuted v σ)[i] = v[σ i] :=
  congrFun (entries_permuted v σ) i

/-- The identity moves nothing. -/
theorem permuted_one (v : Vector α n) : permuted v 1 = v := by
  refine entries_injective ?_
  rw [entries_permuted, Equiv.Perm.coe_one, Function.comp_id]

/-- No two vectors are the same in another order. -/
theorem permuted_injective (σ : Equiv.Perm (Fin n)) :
    Function.Injective fun v : Vector α n => permuted v σ := by
  intro u v h
  have hentries := congrArg entries h
  rw [entries_permuted, entries_permuted] at hentries
  exact entries_injective (σ.surjective.injective_comp_right hentries)

/-- A vector holds the same elements in any order. -/
theorem mem_permuted_iff {v : Vector α n} {σ : Equiv.Perm (Fin n)} {x : α} :
    x ∈ permuted v σ ↔ x ∈ v := by
  rw [mem_iff_exists_entries, mem_iff_exists_entries, entries_permuted]
  exact (σ.surjective.exists (p := fun i => entries v i = x)).symm

@[simp] theorem AffineVector.constant_permute (v : AffineVector α n) (σ : Equiv.Perm (Fin n)) :
    (v.permute σ).constant = permuted v.constant σ := rfl

@[simp] theorem AffineVector.slope_permute (v : AffineVector α n) (σ : Equiv.Perm (Fin n)) :
    (v.permute σ).slope = permuted v.slope σ := rfl

/-- A function of the vector moves as its entries do. -/
theorem AffineVector.get_permute (v : AffineVector α n) (σ : Equiv.Perm (Fin n)) (i : Fin n) :
    (v.permute σ).get i = v.get (σ i) := by
  unfold get
  rw [← getElem_permuted, ← getElem_permuted]
  rfl

namespace Mat

/-- An entry of a matrix is found at the places that its row and its column were moved from. -/
theorem getElem_permute (A : Mat α m n) (π : Equiv.Perm (Fin m)) (ρ : Equiv.Perm (Fin n))
    (i : Fin m) (j : Fin n) : (A.permute π ρ)[i][j] = A[π i][ρ j] := by
  simp [permute]

/-- A row is one of the rows, with its entries in the order of the columns. -/
theorem row_permute (A : Mat α m n) (π : Equiv.Perm (Fin m)) (ρ : Equiv.Perm (Fin n))
    (i : Fin m) : (A.permute π ρ)[i] = permuted A[π i] ρ := by
  refine entries_injective (funext fun j => ?_)
  rw [entries_apply, getElem_permute, entries_permuted]
  rfl

/-- A column is one of the columns, with its entries in the order of the rows. -/
theorem column_permute (A : Mat α m n) (π : Equiv.Perm (Fin m)) (ρ : Equiv.Perm (Fin n))
    (j : Fin n) : (A.permute π ρ).column j = permuted (A.column (ρ j)) π := by
  refine entries_injective (funext fun i => ?_)
  rw [entries_permuted]
  simp [column, permute]

/-- The view is a submatrix by both permutations. -/
theorem toMatrix_permute (A : Mat ℚ m n) (π : Equiv.Perm (Fin m)) (ρ : Equiv.Perm (Fin n)) :
    (A.permute π ρ).toMatrix = A.toMatrix.submatrix π ρ := by
  ext i j
  exact A.getElem_permute π ρ i j

/-! ## Products -/

/-- The product is in the order of the rows. -/
theorem mulVec_permute (A : Mat ℚ m n) (v : Vector ℚ n) (π : Equiv.Perm (Fin m))
    (ρ : Equiv.Perm (Fin n)) :
    (A.permute π ρ).mulVec (permuted v ρ) = permuted (A.mulVec v) π := by
  refine entries_injective ?_
  rw [entries_mulVec, toMatrix_permute, entries_permuted, entries_permuted, entries_mulVec,
    submatrix_mulVec_equiv, Function.comp_assoc, Equiv.self_comp_symm, Function.comp_id]

/-- Prices are in the order of the columns. -/
theorem vecMul_permute (v : Vector ℚ m) (A : Mat ℚ m n) (π : Equiv.Perm (Fin m))
    (ρ : Equiv.Perm (Fin n)) :
    vecMul (permuted v π) (A.permute π ρ) = permuted (vecMul v A) ρ := by
  refine entries_injective ?_
  rw [entries_vecMul, toMatrix_permute, entries_permuted, entries_permuted, entries_vecMul,
    submatrix_vecMul_equiv, Function.comp_assoc, Equiv.self_comp_symm, Function.comp_id]

end Mat

namespace AffineVector

/-- Taking entries in another order. -/
theorem take_permuted (v : AffineVector α n) (js : Vector (Fin n) m) (σ : Equiv.Perm (Fin m)) :
    v.take (permuted js σ) = (v.take js).permute σ := by
  refine ext_get fun i => ?_
  rw [get_permute, get_take, get_take, getElem_permuted]

/-- A transformed vector is in the order of the rows. -/
theorem transform_permute (v : AffineVector ℚ n) (A : Mat ℚ m n) (π : Equiv.Perm (Fin m))
    (ρ : Equiv.Perm (Fin n)) :
    (v.permute ρ).transform (A.permute π ρ) = (v.transform A).permute π := by
  unfold transform permute
  rw [Mat.mulVec_permute, Mat.mulVec_permute]

/-- A transformed row is in the order of the columns. -/
theorem transformRow_permute (v : AffineVector ℚ m) (A : Mat ℚ m n) (π : Equiv.Perm (Fin m))
    (ρ : Equiv.Perm (Fin n)) :
    (v.permute π).transformRow (A.permute π ρ) = (v.transformRow A).permute ρ := by
  unfold transformRow permute
  rw [Mat.vecMul_permute, Mat.vecMul_permute]

/-- The identity moves no function. -/
theorem permute_one (v : AffineVector α n) : v.permute 1 = v := by
  unfold permute
  rw [permuted_one, permuted_one]

/-- The value is in the same order as the functions. -/
theorem value_permute (v : AffineVector ℚ n) (σ : Equiv.Perm (Fin n)) (lam : ℚ) :
    (v.permute σ).value lam = permuted (v.value lam) σ := by
  refine entries_injective ?_
  rw [entries_permuted, entries_value, entries_value]
  funext i
  rw [get_permute]
  rfl

end AffineVector

/-! ## Tolerances and norms -/

namespace Scalar

/-- The largest absolute value does not depend on the order. -/
theorem maxAbs_permuted (v : Vector ℚ n) (σ : Equiv.Perm (Fin n)) :
    maxAbs (permuted v σ) = maxAbs v := by
  -- Each vector has the entries of the other.
  refine le_antisymm ?_ ?_
  · refine (maxAbs_le_iff (maxAbs_nonneg v)).2 fun i => ?_
    rw [getElem_permuted]
    exact abs_le_maxAbs v (σ i)
  · refine (maxAbs_le_iff (maxAbs_nonneg _)).2 fun i => ?_
    have hle := abs_le_maxAbs (permuted v σ) (σ.symm i)
    rwa [getElem_permuted, σ.apply_symm_apply] at hle

/-- Nor does the tolerance that is relative to it. -/
theorem tolerance_permuted (tol : ℚ) (v : Vector ℚ n) (σ : Equiv.Perm (Fin n)) :
    tolerance tol (permuted v σ) = tolerance tol v := by
  unfold tolerance
  rw [maxAbs_permuted]

end Scalar

namespace Mat

/-- The one-norm does not depend on the order of rows and columns. -/
theorem oneNorm_permute (A : Mat ℚ m n) (π : Equiv.Perm (Fin m)) (ρ : Equiv.Perm (Fin n)) :
    (A.permute π ρ).oneNorm = A.oneNorm := by
  -- The sums down the columns are the same sums in another order.
  have hsums : (Vector.ofFn fun j : Fin n =>
      Scalar.sum fun i : Fin m => Scalar.abs (A.permute π ρ)[i][j]) =
      permuted (Vector.ofFn fun j : Fin n => Scalar.sum fun i : Fin m => Scalar.abs A[i][j]) ρ := by
    refine entries_injective (funext fun j => ?_)
    rw [entries_permuted, entries_ofFn, entries_ofFn, Function.comp_apply, Scalar.sum_eq_sum,
      Scalar.sum_eq_sum]
    simp only [getElem_permute]
    exact Equiv.sum_comp π fun i => Scalar.abs A[i][ρ j]
  unfold oneNorm
  rw [hsums, Scalar.maxAbs_permuted]

/-! ## The inverse -/

/-- Singularity does not depend on the order. -/
theorem det_permute_eq_zero_iff (B : Mat ℚ m m) (π ρ : Equiv.Perm (Fin m)) :
    (B.permute π ρ).toMatrix.det = 0 ↔ B.toMatrix.det = 0 := by
  rw [← not_iff_not, ← ne_eq, ← ne_eq, ← isUnit_iff_ne_zero, ← isUnit_iff_ne_zero,
    ← isUnit_iff_isUnit_det, ← isUnit_iff_isUnit_det, toMatrix_permute, isUnit_submatrix_equiv]

/-- A matrix has one inverse, so permuting the matrix permutes the answer of elimination. -/
theorem solve?_identity_permute {B X X' : Mat ℚ m m} {π ρ : Equiv.Perm (Fin m)}
    (h : solve? B (identity m) = some X) (h' : solve? (B.permute π ρ) (identity m) = some X') :
    X' = X.permute ρ π := by
  have hX : X.toMatrix * B.toMatrix = 1 := by
    rw [mul_eq_one_comm, toMatrix_mul_of_solve? h, toMatrix_identity]
  have hX' : (B.permute π ρ).toMatrix * X'.toMatrix = 1 := by
    rw [toMatrix_mul_of_solve? h', toMatrix_identity]
  have hpermute : (X.permute ρ π).toMatrix * (B.permute π ρ).toMatrix = 1 := by
    rw [toMatrix_permute, toMatrix_permute, submatrix_mul_equiv, hX, submatrix_one_equiv]
  -- One is an inverse from the left, the other from the right.
  exact toMatrix_injective (left_inv_eq_right_inv hpermute hX').symm

/-- A matrix and its permutation are inverted together, or refused for the same reason. -/
theorem inverse?_permute (B : Mat ℚ m m) (π ρ : Equiv.Perm (Fin m)) (tol : ℚ) :
    (B.permute π ρ).inverse? tol = (B.inverse? tol).map fun X => X.permute ρ π := by
  -- Elimination fails for both or for neither.
  have hnone := (det_permute_eq_zero_iff B π ρ).trans (solve?_identity_eq_none_iff B).symm
  rw [← solve?_identity_eq_none_iff] at hnone
  unfold inverse?
  cases h : solve? B (identity m) with
  | none =>
    rw [hnone.2 h]
    rfl
  | some X =>
    cases h' : solve? (B.permute π ρ) (identity m) with
    | none => exact nomatch h.symm.trans (hnone.1 h')
    | some X' =>
      -- Both matrices are equally well conditioned.
      rw [solve?_identity_permute h h']
      dsimp only
      rw [oneNorm_permute, oneNorm_permute]
      split
      · rfl
      · rfl

/-! ## The exchange of one column -/

/-- The entries of an exchanged inverse. -/
theorem getElem_exchange [Scalar α] (X : Mat α m k) (d : Vector α m) (row i : Fin m) (j : Fin k) :
    (X.exchange d row)[i][j] = if i = row then X[row][j] / d[row]
      else X[i][j] - d[i] * (X[row][j] / d[row]) := by
  by_cases hi : i = row
  · simp [exchange, hi]
  · simp [exchange, subMultiple, hi]

/-- The exchange of a column commutes with permutations. -/
theorem exchange_permute [Scalar α] (X : Mat α m k) (d : Vector α m) (row : Fin m)
    (σ : Equiv.Perm (Fin m)) (π : Equiv.Perm (Fin k)) :
    (X.permute σ π).exchange (permuted d σ) (σ.symm row) = (X.exchange d row).permute σ π := by
  refine Vector.ext fun i hi => Vector.ext fun j hj => ?_
  show ((X.permute σ π).exchange (permuted d σ) (σ.symm row))[(⟨i, hi⟩ : Fin m)][(⟨j, hj⟩ : Fin k)] =
    ((X.exchange d row).permute σ π)[(⟨i, hi⟩ : Fin m)][(⟨j, hj⟩ : Fin k)]
  rw [getElem_permute, getElem_exchange, getElem_exchange]
  simp only [getElem_permute, getElem_permuted, σ.apply_symm_apply, σ.eq_symm_apply]

end Mat

end ParametricLP
