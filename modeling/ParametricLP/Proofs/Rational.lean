import Mathlib
import ParametricLP.Optimality

/-!
# Exact arithmetic

Over the rationals every operation of `Scalar` is the one of ordered fields: comparisons are total,
nothing is rounded and nothing is undefined. The lemmas here say so, operation by operation; after
them no operation of `Scalar` is unfolded.

## Key results

- `foldl_larger_le_iff`, `exists_eq_foldl_larger`: the running maximum is the largest value
- `maxAbs_le_iff`, `maxNegativePart_le_iff`: the largest violation, entry by entry
- `tolerance_nonneg`, `tolerance_zero`: a relative tolerance is nonnegative, and zero if `tol` is
-/

namespace ParametricLP

namespace Scalar

/-- The test for zero is equality. -/
theorem isZero_iff (x : ℚ) : isZero x = true ↔ x = 0 := by
  simp only [isZero, Bool.and_eq_true, decide_eq_true_eq]
  exact le_antisymm_iff.symm

/-- The absolute value of the model is the usual one. -/
theorem abs_eq_abs (x : ℚ) : abs x = |x| := by
  unfold abs
  split
  · next h => exact (abs_of_neg h).symm
  · next h => exact (abs_of_nonneg (not_lt.1 h)).symm

/-- The larger of two numbers is their maximum. -/
theorem larger_eq_max (x y : ℚ) : larger x y = max x y := by
  unfold larger
  split
  · next h => exact (max_eq_right h).symm
  · next h =>
    have hyx : y ≤ x := le_of_lt (not_le.1 h)
    rw [if_pos hyx]
    exact (max_eq_left hyx).symm

/-- The smaller of two numbers is their minimum. -/
theorem smaller_eq_min (x y : ℚ) : smaller x y = min x y := by
  unfold smaller
  split
  · next h => exact (min_eq_left h).symm
  · next h =>
    have hyx : y ≤ x := le_of_lt (not_le.1 h)
    rw [if_pos hyx]
    exact (min_eq_right hyx).symm

/-- Raising a number to one is a maximum. -/
theorem atLeastOne_eq_max (x : ℚ) : atLeastOne x = max 1 x := by
  unfold atLeastOne
  split
  · next h => exact (max_eq_right (le_of_lt h)).symm
  · next h => exact (max_eq_left (not_lt.1 h)).symm

/-- What was raised to one is at least one. -/
theorem one_le_atLeastOne (x : ℚ) : 1 ≤ atLeastOne x := by
  rw [atLeastOne_eq_max]
  exact le_max_left 1 x

/-- The positive part is a maximum. -/
theorem positivePart_eq_max (x : ℚ) : positivePart x = max x 0 :=
  larger_eq_max x 0

/-- A nonnegative number is its own positive part. -/
theorem positivePart_of_nonneg {x : ℚ} (h : 0 ≤ x) : positivePart x = x := by
  rw [positivePart_eq_max]
  exact max_eq_left h

/-- The running sum is the usual sum. -/
theorem sum_eq_sum {n : ℕ} (f : Fin n → ℚ) : sum f = ∑ i, f i := by
  induction n with
  | zero => rfl
  | succ n ih =>
    -- The last term is added last.
    rw [Fin.sum_univ_castSucc, ← ih]
    unfold sum
    rw [Fin.foldl_succ_last]

/-! ## Running maxima and minima -/

section Folds

variable {ι : Type} (f : ι → ℚ)

/-- A running maximum is bounded as its start and all values are. -/
theorem foldl_larger_le_iff (is : List ι) (s b : ℚ) :
    is.foldl (fun s j => larger s (f j)) s ≤ b ↔ s ≤ b ∧ ∀ j ∈ is, f j ≤ b := by
  induction is generalizing s with
  | nil => simp
  | cons i is ih =>
    rw [List.foldl_cons, ih, larger_eq_max, max_le_iff, List.forall_mem_cons, and_assoc]

/-- A running minimum is bounded from below as its start and all values are. -/
theorem le_foldl_smaller_iff (is : List ι) (s b : ℚ) :
    b ≤ is.foldl (fun s j => smaller s (f j)) s ↔ b ≤ s ∧ ∀ j ∈ is, b ≤ f j := by
  induction is generalizing s with
  | nil => simp
  | cons i is ih =>
    rw [List.foldl_cons, ih, smaller_eq_min, le_min_iff, List.forall_mem_cons, and_assoc]

/-- A fold that keeps one of its two operands at every step ends in one of the values. -/
private theorem exists_eq_foldl {op : ℚ → ℚ → ℚ} (hop : ∀ x y, op x y = x ∨ op x y = y) (i : ι)
    (is : List ι) : ∃ k ∈ i :: is, f k = is.foldl (fun s j => op s (f j)) (f i) := by
  induction is generalizing i with
  | nil => exact ⟨i, List.mem_cons_self, rfl⟩
  | cons j is ih =>
    rw [List.foldl_cons]
    -- The fold goes on from one of the first two values.
    rcases hop (f i) (f j) with h | h
    · rw [h]
      obtain ⟨k, hk, hf⟩ := ih i
      refine ⟨k, ?_, hf⟩
      rcases List.mem_cons.1 hk with rfl | hk
      · exact List.mem_cons_self
      · exact List.mem_cons_of_mem _ (List.mem_cons_of_mem _ hk)
    · rw [h]
      obtain ⟨k, hk, hf⟩ := ih j
      exact ⟨k, List.mem_cons_of_mem _ hk, hf⟩

/-- The running maximum over a nonempty list is attained. -/
theorem exists_eq_foldl_larger (i : ι) (is : List ι) :
    ∃ k ∈ i :: is, f k = is.foldl (fun s j => larger s (f j)) (f i) :=
  exists_eq_foldl f (fun x y => by rw [larger_eq_max]; exact max_choice x y) i is

/-- The running minimum over a nonempty list is attained. -/
theorem exists_eq_foldl_smaller (i : ι) (is : List ι) :
    ∃ k ∈ i :: is, f k = is.foldl (fun s j => smaller s (f j)) (f i) :=
  exists_eq_foldl f (fun x y => by rw [smaller_eq_min]; exact min_choice x y) i is

end Folds

/-! ## Largest entries of a vector -/

variable {n : ℕ}

/-- The running maximum over a vector, started at zero, is bounded as every entry is. -/
theorem vector_foldl_larger_le_iff (f : ℚ → ℚ) {v : Vector ℚ n} {b : ℚ} (hb : 0 ≤ b) :
    v.foldl (fun s x => larger s (f x)) 0 ≤ b ↔ ∀ i : Fin n, f v[i] ≤ b := by
  rw [← Vector.foldl_toList, foldl_larger_le_iff, and_iff_right hb]
  simp only [Vector.mem_toList_iff, Vector.mem_iff_getElem]
  constructor
  · intro h i
    exact h _ ⟨i, i.isLt, rfl⟩
  · rintro h x ⟨i, hi, rfl⟩
    exact h ⟨i, hi⟩

/-- It is not below what it is started at. -/
theorem vector_foldl_larger_nonneg (f : ℚ → ℚ) (v : Vector ℚ n) :
    0 ≤ v.foldl (fun s x => larger s (f x)) 0 := by
  rw [← Vector.foldl_toList]
  exact ((foldl_larger_le_iff f v.toList 0 _).1 le_rfl).1

/-- The largest absolute value is nonnegative. -/
theorem maxAbs_nonneg (v : Vector ℚ n) : 0 ≤ maxAbs v :=
  vector_foldl_larger_nonneg abs v

/-- The largest absolute value is bounded as every entry is. -/
theorem maxAbs_le_iff {v : Vector ℚ n} {b : ℚ} (hb : 0 ≤ b) :
    maxAbs v ≤ b ↔ ∀ i : Fin n, |v[i]| ≤ b := by
  unfold maxAbs
  rw [vector_foldl_larger_le_iff abs hb]
  simp only [abs_eq_abs]

/-- No entry is larger than the largest. -/
theorem abs_le_maxAbs (v : Vector ℚ n) (i : Fin n) : |v[i]| ≤ maxAbs v :=
  (maxAbs_le_iff (maxAbs_nonneg v)).1 le_rfl i

/-- Where all entries are zero so is the largest. -/
theorem maxAbs_eq_zero {v : Vector ℚ n} (h : ∀ i : Fin n, v[i] = 0) : maxAbs v = 0 := by
  refine le_antisymm ((maxAbs_le_iff le_rfl).2 fun i => ?_) (maxAbs_nonneg v)
  rw [h, abs_zero]

/-- A relative tolerance is nonnegative. -/
theorem tolerance_nonneg {tol : ℚ} (h : 0 ≤ tol) (v : Vector ℚ n) : 0 ≤ tolerance tol v :=
  mul_nonneg h (one_pos.le.trans (one_le_atLeastOne _))

/-- Without a tolerance the relative one is zero as well. -/
theorem tolerance_zero (v : Vector ℚ n) : tolerance 0 v = 0 :=
  zero_mul _

end Scalar

/-- No part below zero is negative. -/
theorem maxNegativePart_nonneg {n : ℕ} (v : Vector ℚ n) : 0 ≤ maxNegativePart v :=
  Scalar.vector_foldl_larger_nonneg (fun x => Scalar.positivePart (-x)) v

/-- No entry lies below zero by more than `b` exactly where each is at least `-b`. -/
theorem maxNegativePart_le_iff {n : ℕ} {v : Vector ℚ n} {b : ℚ} (hb : 0 ≤ b) :
    maxNegativePart v ≤ b ↔ ∀ i : Fin n, -b ≤ v[i] := by
  unfold maxNegativePart
  rw [Scalar.vector_foldl_larger_le_iff (fun x => Scalar.positivePart (-x)) hb]
  simp only [Scalar.positivePart_eq_max, max_le_iff, hb, and_true, neg_le]

/-- The largest part below zero is that of a number with the same lower bounds up to zero. -/
theorem maxNegativePart_eq {n : ℕ} {v : Vector ℚ n} {low : ℚ}
    (h : ∀ bound ≤ 0, (∀ i : Fin n, bound ≤ v[i]) ↔ bound ≤ low) :
    maxNegativePart v = max 0 (-low) := by
  -- Both numbers have the same upper bounds.
  refine eq_of_forall_ge_iff fun b => ?_
  rw [max_le_iff, neg_le]
  constructor
  · intro hb
    -- A bound of a part below zero is itself nonnegative.
    have hb0 := (maxNegativePart_nonneg v).trans hb
    exact ⟨hb0, (h _ (neg_nonpos.2 hb0)).1 ((maxNegativePart_le_iff hb0).1 hb)⟩
  · rintro ⟨hb0, hb⟩
    exact (maxNegativePart_le_iff hb0).2 ((h _ (neg_nonpos.2 hb0)).2 hb)

end ParametricLP
