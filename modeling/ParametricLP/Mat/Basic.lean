import ParametricLP.Scalar

/-! # Stored matrices

A matrix is a vector of rows, so that every entry is computed once and kept. This file has products
with vectors, the transpose and the identity; elimination is in `ParametricLP.Mat.Elimination`. -/

namespace ParametricLP

variable {α : Type} [Scalar α]

/-- A matrix of `m` rows and `n` columns, stored row by row. -/
abbrev Mat (α : Type) (m n : Nat) := Vector (Vector α n) m

/-- Inner product of two vectors. -/
def dot {n : Nat} (u v : Vector α n) : α :=
  Scalar.sum fun i : Fin n => u[i] * v[i]

namespace Mat

variable {m n k : Nat}

/-- The matrix with the given entries. -/
def ofFn (f : Fin m → Fin n → α) : Mat α m n :=
  Vector.ofFn fun i => Vector.ofFn fun j => f i j

/-- Column `j`. -/
def column (A : Mat α m n) (j : Fin n) : Vector α m :=
  Vector.ofFn fun i => A[i][j]

/-- The columns named by `js`, in that order. -/
def columns (A : Mat α m n) (js : Vector (Fin n) k) : Mat α m k :=
  ofFn fun i l => A[i][js[l]]

/-- Rows and columns exchanged. -/
def transpose (A : Mat α m n) : Mat α n m :=
  ofFn fun j i => A[i][j]

/-- The identity matrix. -/
def identity (n : Nat) : Mat α n n :=
  ofFn fun i j => if i = j then 1 else 0

/-- Product with a column vector on the right. -/
def mulVec (A : Mat α m n) (v : Vector α n) : Vector α m :=
  Vector.ofFn fun i => dot A[i] v

/-- Product with a row vector on the left. -/
def vecMul (v : Vector α m) (A : Mat α m n) : Vector α n :=
  Vector.ofFn fun j => Scalar.sum fun i : Fin m => v[i] * A[i][j]

/-- Product of two matrices. -/
def mul (A : Mat α m n) (B : Mat α n k) : Mat α m k :=
  ofFn fun i j => Scalar.sum fun l : Fin n => A[i][l] * B[l][j]

/-- The one-norm: the largest sum of absolute values down a column. -/
def oneNorm (A : Mat α m n) : α :=
  Scalar.maxAbs (Vector.ofFn fun j : Fin n => Scalar.sum fun i : Fin m => Scalar.abs A[i][j])

/-- Two matrices of as many rows, side by side. -/
def beside {p : Nat} (A : Mat α m n) (B : Mat α m p) : Mat α m (n + p) :=
  Vector.ofFn fun i => A[i] ++ B[i]

/-- Two matrices of as many columns, one above the other. -/
def above {p : Nat} (A : Mat α m n) (B : Mat α p n) : Mat α (m + p) n :=
  A ++ B

/-- Every entry with its sign changed. -/
def neg (A : Mat α m n) : Mat α m n :=
  ofFn fun i j => -A[i][j]

/-- The block of a variable split into two nonnegative parts: the matrix and its negative. -/
def signSplit (A : Mat α m n) : Mat α m (n + n) :=
  A.beside A.neg

/-! ### Entries

One lemma for each operation says what its entries are; after that no operation is unfolded. -/

omit [Scalar α] in
@[simp] theorem getElem_ofFn (f : Fin m → Fin n → α) {i j : Nat} (hi : i < m) (hj : j < n) :
    (ofFn f)[i][j] = f ⟨i, hi⟩ ⟨j, hj⟩ := by
  simp [ofFn]

omit [Scalar α] in
@[simp] theorem getElem_column (A : Mat α m n) (j : Fin n) {i : Nat} (hi : i < m) :
    (A.column j)[i] = A[i][j] := by
  simp [column]

omit [Scalar α] in
@[simp] theorem getElem_columns (A : Mat α m n) (js : Vector (Fin n) k) {i l : Nat}
    (hi : i < m) (hl : l < k) : (A.columns js)[i][l] = A[i][js[l]] := by
  simp [columns]

omit [Scalar α] in
@[simp] theorem getElem_transpose (A : Mat α m n) {i j : Nat} (hi : i < m) (hj : j < n) :
    A.transpose[j][i] = A[i][j] := by
  simp [transpose]

theorem getElem_identity {i j : Nat} (hi : i < n) (hj : j < n) :
    (identity n : Mat α n n)[i][j] = if i = j then 1 else 0 := by
  simp [identity]

theorem getElem_mulVec (A : Mat α m n) (v : Vector α n) {i : Nat} (hi : i < m) :
    (A.mulVec v)[i] = dot A[i] v := by
  simp [mulVec]

theorem getElem_vecMul (v : Vector α m) (A : Mat α m n) {j : Nat} (hj : j < n) :
    (vecMul v A)[j] = dot v (A.column ⟨j, hj⟩) := by
  simp [vecMul, dot]

theorem getElem_mul (A : Mat α m n) (B : Mat α n k) {i j : Nat} (hi : i < m) (hj : j < k) :
    (A.mul B)[i][j] = dot A[i] (B.column ⟨j, hj⟩) := by
  simp [mul, dot]

@[simp] theorem getElem_neg (A : Mat α m n) {i j : Nat} (hi : i < m) (hj : j < n) :
    A.neg[i][j] = -A[i][j] := by
  simp [neg]

end Mat

end ParametricLP
