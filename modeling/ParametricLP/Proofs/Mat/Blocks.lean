import Mathlib
import ParametricLP.Proofs.Mat.View

/-!
# Blocks of columns and rows

A vector of `m + n` entries is read as its first `m` and its last `n`, `z ∘ Fin.castAdd n` and
`z ∘ Fin.natAdd m`. Products with matrices put together from blocks are sums of products with the
blocks.

The entries of a sign-split variable are twice as many as those of the variable: `signed` is what
they stand for, positive parts less negative parts, and `split` is the one way to write a vector like
that without a positive and a negative part at the same place.

## Key results

- `Mat.beside_mulVec`, `Mat.vecMul_beside_castAdd`, `Mat.vecMul_beside_natAdd`: blocks of columns
- `Mat.signSplit_mulVec`: a sign-split block acts on what its variable stands for
- `signed_split`, `split_signed`, `sum_abs_signed_le`: splitting loses nothing, and is cheapest
-/

namespace ParametricLP

open Matrix

variable {m n k : ℕ}

/-! ## Vectors -/

/-- The entries of two vectors one after the other. -/
theorem entries_append {α : Type} (u : Vector α m) (v : Vector α n) :
    entries (u ++ v) = Fin.append (entries u) (entries v) := by
  funext i
  induction i using Fin.addCases with
  | left i => simp
  | right i => simp

@[simp] theorem entries_replicate {α : Type} (n : ℕ) (x : α) :
    entries (Vector.replicate n x) = fun _ => x := by
  funext i
  simp

/-- A product with two blocks is the sum of the products with each. -/
theorem append_dotProduct (u : Fin m → ℚ) (v : Fin n → ℚ) (z : Fin (m + n) → ℚ) :
    Fin.append u v ⬝ᵥ z = u ⬝ᵥ z ∘ Fin.castAdd n + v ⬝ᵥ z ∘ Fin.natAdd m := by
  simp [dotProduct, Fin.sum_univ_add]

/-- A product with a constant is that multiple of the sum. -/
theorem const_dotProduct (x : ℚ) (z : Fin n → ℚ) : (fun _ => x) ⬝ᵥ z = x * ∑ i, z i := by
  simp [dotProduct, Finset.mul_sum]

/-- What is nonnegative in both blocks is nonnegative. -/
theorem append_nonneg {u : Fin m → ℚ} {v : Fin n → ℚ} (hu : ∀ i, 0 ≤ u i) (hv : ∀ i, 0 ≤ v i)
    (i : Fin (m + n)) : 0 ≤ Fin.append u v i := by
  induction i using Fin.addCases with
  | left i => simpa using hu i
  | right i => simpa using hv i

/-! ## Matrices -/

namespace Mat

variable (A : Mat ℚ m n) (B : Mat ℚ m k)

@[simp] theorem toMatrix_beside_castAdd (i : Fin m) (j : Fin n) :
    (A.beside B).toMatrix i (Fin.castAdd k j) = A.toMatrix i j := by
  simp [beside]

@[simp] theorem toMatrix_beside_natAdd (i : Fin m) (j : Fin k) :
    (A.beside B).toMatrix i (Fin.natAdd n j) = B.toMatrix i j := by
  simp [beside]

@[simp] theorem toMatrix_above_castAdd (C : Mat ℚ k n) (i : Fin m) (j : Fin n) :
    (A.above C).toMatrix (Fin.castAdd k i) j = A.toMatrix i j := by
  simp [above]

@[simp] theorem toMatrix_above_natAdd (C : Mat ℚ k n) (i : Fin k) (j : Fin n) :
    (A.above C).toMatrix (Fin.natAdd m i) j = C.toMatrix i j := by
  simp [above]

/-- The negative of a stored matrix is the negative of its view. -/
theorem toMatrix_neg : A.neg.toMatrix = -A.toMatrix := by
  ext i j
  simp

/-- The first block of a sign-split matrix is the matrix. -/
theorem toMatrix_signSplit_castAdd (i : Fin m) (j : Fin n) :
    A.signSplit.toMatrix i (Fin.castAdd n j) = A.toMatrix i j :=
  toMatrix_beside_castAdd A A.neg i j

/-- The second block of a sign-split matrix is its negative. -/
theorem toMatrix_signSplit_natAdd (i : Fin m) (j : Fin n) :
    A.signSplit.toMatrix i (Fin.natAdd n j) = -A.toMatrix i j := by
  unfold signSplit
  rw [toMatrix_beside_natAdd, toMatrix_neg, Matrix.neg_apply]

/-- Matrices side by side act on the blocks of a vector. -/
theorem beside_mulVec (z : Fin (n + k) → ℚ) :
    (A.beside B).toMatrix *ᵥ z =
      A.toMatrix *ᵥ (z ∘ Fin.castAdd k) + B.toMatrix *ᵥ (z ∘ Fin.natAdd n) := by
  funext i
  simp only [Matrix.mulVec, dotProduct, Fin.sum_univ_add, toMatrix_beside_castAdd,
    toMatrix_beside_natAdd, Function.comp_apply, Pi.add_apply]

/-- Matrices one above the other give the blocks of the product. -/
theorem above_mulVec (A : Mat ℚ m n) (C : Mat ℚ k n) (z : Fin n → ℚ) :
    (A.above C).toMatrix *ᵥ z = Fin.append (A.toMatrix *ᵥ z) (C.toMatrix *ᵥ z) := by
  funext i
  induction i using Fin.addCases with
  | left i =>
    rw [Fin.append_left]
    simp only [Matrix.mulVec, dotProduct, toMatrix_above_castAdd]
  | right i =>
    rw [Fin.append_right]
    simp only [Matrix.mulVec, dotProduct, toMatrix_above_natAdd]

/-- Prices of the columns on the left are those of the left block. -/
theorem vecMul_beside_castAdd (v : Fin m → ℚ) (j : Fin n) :
    (v ᵥ* (A.beside B).toMatrix) (Fin.castAdd k j) = (v ᵥ* A.toMatrix) j := by
  simp only [Matrix.vecMul, dotProduct, toMatrix_beside_castAdd]

/-- Prices of the columns on the right are those of the right block. -/
theorem vecMul_beside_natAdd (v : Fin m → ℚ) (j : Fin k) :
    (v ᵥ* (A.beside B).toMatrix) (Fin.natAdd n j) = (v ᵥ* B.toMatrix) j := by
  simp only [Matrix.vecMul, dotProduct, toMatrix_beside_natAdd]

/-- Positive parts have the prices of their variables. -/
theorem vecMul_signSplit_castAdd (v : Fin m → ℚ) (j : Fin n) :
    (v ᵥ* A.signSplit.toMatrix) (Fin.castAdd n j) = (v ᵥ* A.toMatrix) j :=
  vecMul_beside_castAdd A A.neg v j

/-- Negative parts have the opposite prices. -/
theorem vecMul_signSplit_natAdd (v : Fin m → ℚ) (j : Fin n) :
    (v ᵥ* A.signSplit.toMatrix) (Fin.natAdd n j) = -(v ᵥ* A.toMatrix) j := by
  unfold signSplit
  rw [vecMul_beside_natAdd, toMatrix_neg, Matrix.vecMul_neg, Pi.neg_apply]

end Mat

/-! ## Variables of either sign -/

/-- What a vector of positive parts and negative parts stands for. -/
def signed (z : Fin (k + k) → ℚ) : Fin k → ℚ :=
  z ∘ Fin.castAdd k - z ∘ Fin.natAdd k

/-- The positive and the negative parts of a vector. -/
def split (x : Fin k → ℚ) : Fin (k + k) → ℚ :=
  Fin.append x⁺ x⁻

/-- An entry is its positive part less its negative part. -/
theorem signed_apply (z : Fin (k + k) → ℚ) (i : Fin k) :
    signed z i = z (Fin.castAdd k i) - z (Fin.natAdd k i) := rfl

/-- The first half of a split vector are positive parts. -/
theorem split_castAdd (x : Fin k → ℚ) (i : Fin k) : split x (Fin.castAdd k i) = (x i)⁺ :=
  Fin.append_left x⁺ x⁻ i

/-- The second half are negative parts. -/
theorem split_natAdd (x : Fin k → ℚ) (i : Fin k) : split x (Fin.natAdd k i) = (x i)⁻ :=
  Fin.append_right x⁺ x⁻ i

/-- A split vector stands for the vector. -/
@[simp] theorem signed_split (x : Fin k → ℚ) : signed (split x) = x := by
  funext i
  rw [signed_apply, split_castAdd, split_natAdd, posPart_sub_negPart]

/-- Where one of the two parts is zero everywhere, they are those of what they stand for. -/
theorem split_signed {z : Fin (k + k) → ℚ} (hz : ∀ i, 0 ≤ z i)
    (hzero : ∀ i, z (Fin.castAdd k i) = 0 ∨ z (Fin.natAdd k i) = 0) : split (signed z) = z := by
  funext i
  induction i using Fin.addCases with
  | left i =>
    rw [split_castAdd, signed_apply]
    -- Whichever part is zero, the entry has the sign of the other.
    rcases hzero i with h | h
    · rw [h, zero_sub, posPart_of_nonpos (neg_nonpos.2 (hz _))]
    · rw [h, sub_zero, posPart_of_nonneg (hz _)]
  | right i =>
    rw [split_natAdd, signed_apply]
    rcases hzero i with h | h
    · rw [h, zero_sub, negPart_of_nonpos (neg_nonpos.2 (hz _)), neg_neg]
    · rw [h, sub_zero, negPart_of_nonneg (hz _)]

/-- Parts of numbers are nonnegative. -/
theorem split_nonneg (x : Fin k → ℚ) (i : Fin (k + k)) : 0 ≤ split x i :=
  append_nonneg (fun i => posPart_nonneg (x i)) (fun i => negPart_nonneg (x i)) i

/-- The parts of a vector sum to its absolute values. -/
theorem sum_split (x : Fin k → ℚ) : ∑ i, split x i = ∑ i, |x i| := by
  rw [Fin.sum_univ_add, ← Finset.sum_add_distrib]
  simp only [split_castAdd, split_natAdd, posPart_add_negPart]

/-- No other way to write it has a smaller sum. -/
theorem sum_abs_signed_le {z : Fin (k + k) → ℚ} (hz : ∀ i, 0 ≤ z i) :
    ∑ i, |signed z i| ≤ ∑ i, z i := by
  rw [Fin.sum_univ_add, ← Finset.sum_add_distrib]
  apply Finset.sum_le_sum
  intro i _
  -- The difference of two nonnegative numbers is at most their sum, on either side of zero.
  have hup := hz (Fin.castAdd k i)
  have hdown := hz (Fin.natAdd k i)
  rw [signed_apply, abs_le]
  constructor <;> linarith

/-- A sign-split block acts on what its variable stands for. -/
theorem Mat.signSplit_mulVec (A : Mat ℚ m k) (z : Fin (k + k) → ℚ) :
    A.signSplit.toMatrix *ᵥ z = A.toMatrix *ᵥ signed z := by
  unfold Mat.signSplit signed
  rw [beside_mulVec, toMatrix_neg, Matrix.neg_mulVec, Matrix.mulVec_sub, sub_eq_add_neg]

end ParametricLP
