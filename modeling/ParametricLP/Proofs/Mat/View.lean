import Mathlib
import ParametricLP.Mat.Inverse
import ParametricLP.Proofs.Rational

/-!
# Stored matrices as matrices

`Mat.toMatrix` and `entries` are the views of a stored matrix and of a stored vector as functions of
their indices. Each operation on stored data is the usual one through the view, so that laws of
matrices are taken from Mathlib:

* `dot_eq_dotProduct`   `dot u v = entries u ⬝ᵥ entries v`
* `entries_mulVec`      `entries (A.mulVec v) = A.toMatrix *ᵥ entries v`
* `entries_vecMul`      `entries (vecMul v A) = entries v ᵥ* A.toMatrix`
* `toMatrix_identity`   `(identity n).toMatrix = 1`
-/

namespace ParametricLP

open Matrix

variable {m n k : ℕ}

section Entries

variable {α : Type}

/-- A stored vector as a function of its index. -/
def entries (v : Vector α n) : Fin n → α := fun i => v[i]

@[simp] theorem entries_apply (v : Vector α n) (i : Fin n) : entries v i = v[i] := rfl

@[simp] theorem entries_ofFn (f : Fin n → α) : entries (Vector.ofFn f) = f := by
  funext i
  simp

/-- A stored vector is determined by its entries. -/
theorem entries_injective : Function.Injective (entries (α := α) (n := n)) := by
  intro u v h
  refine Vector.ext fun i hi => ?_
  exact congrFun h ⟨i, hi⟩

/-- Setting an entry changes the view there and nowhere else. -/
theorem entries_set (v : Vector α n) (i : Fin n) (x : α) :
    entries (v.set i x i.isLt) = Function.update (entries v) i x := by
  funext j
  rw [entries_apply, getElem_fin, Vector.getElem_set, Function.update_apply]
  simp only [Fin.ext_iff, eq_comm (a := (j : ℕ)), entries_apply, getElem_fin]

/-- The elements of a vector are its entries. -/
theorem mem_iff_exists_entries {v : Vector α n} {x : α} : x ∈ v ↔ ∃ i, entries v i = x := by
  rw [Vector.mem_iff_getElem]
  exact ⟨fun ⟨i, hi, h⟩ => ⟨⟨i, hi⟩, h⟩, fun ⟨i, h⟩ => ⟨i, i.isLt, h⟩⟩

end Entries

/-- The product of stored vectors is that of their views. -/
theorem dot_eq_dotProduct (u v : Vector ℚ n) : dot u v = entries u ⬝ᵥ entries v := by
  unfold dot
  rw [Scalar.sum_eq_sum]
  rfl

namespace Mat

/-- A stored matrix as a function of its two indices. -/
def toMatrix (A : Mat ℚ m n) : Matrix (Fin m) (Fin n) ℚ := Matrix.of fun i j => A[i][j]

@[simp] theorem toMatrix_apply (A : Mat ℚ m n) (i : Fin m) (j : Fin n) :
    A.toMatrix i j = A[i][j] := rfl

/-- The stored matrix of a matrix. -/
def ofMatrix (M : Matrix (Fin m) (Fin n) ℚ) : Mat ℚ m n := ofFn fun i j => M i j

/-- Storing a matrix and viewing it gives it back. -/
@[simp] theorem toMatrix_ofMatrix (M : Matrix (Fin m) (Fin n) ℚ) : (ofMatrix M).toMatrix = M := by
  ext i j
  simp [ofMatrix]

/-- A stored matrix is determined by its view. -/
theorem toMatrix_injective : Function.Injective (toMatrix (m := m) (n := n)) := by
  intro A B h
  refine Vector.ext fun i hi => Vector.ext fun j hj => ?_
  exact congrFun (congrFun h ⟨i, hi⟩) ⟨j, hj⟩

/-- The stored identity is the identity. -/
theorem toMatrix_identity : (identity n : Mat ℚ n n).toMatrix = 1 := by
  ext i j
  simp only [toMatrix_apply, getElem_fin, getElem_identity, Matrix.one_apply, Fin.ext_iff]

/-- Transposition is that of the view. -/
theorem toMatrix_transpose (A : Mat ℚ m n) : A.transpose.toMatrix = A.toMatrixᵀ := by
  ext i j
  simp

/-- The product of stored matrices is that of their views. -/
theorem toMatrix_mul (A : Mat ℚ m n) (B : Mat ℚ n k) :
    (A.mul B).toMatrix = A.toMatrix * B.toMatrix := by
  ext i j
  rw [toMatrix_apply, getElem_fin, getElem_fin, getElem_mul, dot_eq_dotProduct]
  simp [Matrix.mul_apply, dotProduct]

/-- The columns of a basis, as a submatrix. -/
theorem toMatrix_columns (A : Mat ℚ m n) (js : Vector (Fin n) k) :
    (A.columns js).toMatrix = A.toMatrix.submatrix id (entries js) := by
  ext i l
  simp

/-- A column of a stored matrix is that of its view. -/
theorem entries_column (A : Mat ℚ m n) (j : Fin n) : entries (A.column j) = A.toMatrix.col j := by
  funext i
  simp

/-- A row of a stored matrix is that of its view. -/
theorem entries_row (A : Mat ℚ m n) (i : Fin m) : entries A[i] = A.toMatrix i := rfl

/-- A stored matrix acts on a vector as its view does. -/
theorem entries_mulVec (A : Mat ℚ m n) (v : Vector ℚ n) :
    entries (A.mulVec v) = A.toMatrix *ᵥ entries v := by
  funext i
  rw [entries_apply, getElem_fin, getElem_mulVec, dot_eq_dotProduct]
  rfl

/-- A stored matrix prices columns as its view does. -/
theorem entries_vecMul (v : Vector ℚ m) (A : Mat ℚ m n) :
    entries (vecMul v A) = entries v ᵥ* A.toMatrix := by
  funext j
  rw [entries_apply, getElem_fin, getElem_vecMul, dot_eq_dotProduct, entries_column]
  rfl

end Mat

end ParametricLP
