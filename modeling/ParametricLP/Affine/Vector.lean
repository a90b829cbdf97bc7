import ParametricLP.Affine.Basic
import ParametricLP.Mat.Basic

/-! # Vectors of affine functions

An `AffineVector` keeps the constants and the slopes of `n` affine functions in two vectors, so that
a linear map applies to each of them as a whole. `get` is the view of one entry. Arithmetic on whole
vectors is that of `ParametricLP.Affine.Block`. -/

namespace ParametricLP

variable {α : Type} [Scalar α]

/-- The vector-valued function `lam ↦ constant + lam * slope`. -/
structure AffineVector (α : Type) (n : Nat) where
  constant : Vector α n
  slope : Vector α n

namespace AffineVector

variable {n k : Nat}

/-- Entry `i`. -/
def get (v : AffineVector α n) (i : Fin n) : Affine α :=
  ⟨v.constant[i], v.slope[i]⟩

/-- The vector with the given entries. -/
def ofFn (f : Fin n → Affine α) : AffineVector α n :=
  let entries := Vector.ofFn f
  ⟨entries.map (·.constant), entries.map (·.slope)⟩

/-- The vector that is the same for every `lam`. -/
def fixed (v : Vector α n) : AffineVector α n :=
  ⟨v, Vector.replicate n 0⟩

/-- Values of all entries at `lam`. -/
def value (v : AffineVector α n) (lam : α) : Vector α n :=
  Vector.ofFn fun i => (v.get i).value lam

/-- The entries at the given positions, in that order. -/
def take (v : AffineVector α n) (positions : Vector (Fin n) k) : AffineVector α k :=
  ofFn fun i => v.get positions[i]

/-- The image under a matrix, applied to constants and slopes alike. -/
def transform (v : AffineVector α n) (A : Mat α k n) : AffineVector α k :=
  ⟨A.mulVec v.constant, A.mulVec v.slope⟩

/-- The image as a row vector under a matrix, applied to constants and slopes alike. -/
def transformRow (v : AffineVector α n) (A : Mat α n k) : AffineVector α k :=
  ⟨Mat.vecMul v.constant A, Mat.vecMul v.slope A⟩

/-- For each entry, the `lam` below which it is negative, if it rises by more than `tol`. -/
def zeroCrossings (v : AffineVector α n) (tol : α) : Vector (Option α) n :=
  Vector.ofFn fun i => (v.get i).fallsToZero? tol

/-- For each entry, whether it is nonnegative for all large `lam`. -/
def nonnegAtInfinity (v : AffineVector α n) (tol slopeTol : α) : Vector Bool n :=
  Vector.ofFn fun i => (v.get i).nonnegAtInfinity tol slopeTol

/-! ### Entries

`get` commutes with every operation; two vectors with equal entries are equal. -/

omit [Scalar α] in
theorem ext_get {v w : AffineVector α n} (h : ∀ i, v.get i = w.get i) : v = w := by
  cases v; cases w
  simp only [get, Affine.mk.injEq, AffineVector.mk.injEq] at h ⊢
  exact ⟨Vector.ext fun i hi => (h ⟨i, hi⟩).1, Vector.ext fun i hi => (h ⟨i, hi⟩).2⟩

omit [Scalar α] in
@[simp] theorem get_ofFn (f : Fin n → Affine α) (i : Fin n) : (ofFn f).get i = f i := by
  simp [get, ofFn]

@[simp] theorem get_fixed (v : Vector α n) (i : Fin n) : (fixed v).get i = ⟨v[i], 0⟩ := by
  simp [get, fixed]

omit [Scalar α] in
@[simp] theorem get_take (v : AffineVector α n) (positions : Vector (Fin n) k) (i : Fin k) :
    (v.take positions).get i = v.get positions[i] :=
  get_ofFn _ i

theorem get_transform (v : AffineVector α n) (A : Mat α k n) (i : Fin k) :
    (v.transform A).get i = ⟨dot A[i] v.constant, dot A[i] v.slope⟩ := by
  simp [get, transform, Mat.getElem_mulVec]

theorem get_transformRow (v : AffineVector α n) (A : Mat α n k) (j : Fin k) :
    (v.transformRow A).get j = ⟨dot v.constant (A.column j), dot v.slope (A.column j)⟩ := by
  simp [get, transformRow, Mat.getElem_vecMul]

@[simp] theorem getElem_value (v : AffineVector α n) (lam : α) {i : Nat} (hi : i < n) :
    (v.value lam)[i] = (v.get ⟨i, hi⟩).value lam := by
  simp [value]

@[simp] theorem getElem_zeroCrossings (v : AffineVector α n) (tol : α) {i : Nat} (hi : i < n) :
    (v.zeroCrossings tol)[i] = (v.get ⟨i, hi⟩).fallsToZero? tol := by
  simp [zeroCrossings]

@[simp] theorem getElem_nonnegAtInfinity (v : AffineVector α n) (tol slopeTol : α) {i : Nat}
    (hi : i < n) :
    (v.nonnegAtInfinity tol slopeTol)[i] = (v.get ⟨i, hi⟩).nonnegAtInfinity tol slopeTol := by
  simp [nonnegAtInfinity]

end AffineVector

end ParametricLP
