import Mathlib
import ParametricLP.Proofs.Duality
import ParametricLP.Proofs.Tableau.Valid

/-!
# The basic solution of a tableau

A valid tableau stands for one solution and one set of multipliers at each `lam`: the only solution
of the equations that is zero off the basis, and the only multipliers that price the columns of the
basis at their costs. Equations and complementary slackness therefore hold at every `lam`, and the
pair is optimal exactly where no basic value and no reduced cost is negative.

## Key results

- `Valid.eq_primal`, `Valid.eq_dual`: the basic solution and its multipliers are unique
- `Valid.isOptimalPair_iff`: optimality read off the signs of the tableau
- `Valid.optimalAt_congr`: optimality depends on the set of columns held only
-/

namespace ParametricLP

namespace Tableau

open Matrix

variable {m n : ℕ} {p : Instance ℚ m n} {t t' : Tableau ℚ m n} {lam : ℚ}

/-- No basic value and no reduced cost is negative at `lam`. -/
def OptimalAt (t : Tableau ℚ m n) (lam : ℚ) : Prop :=
  (∀ i : Fin m, 0 ≤ (t.values.get i).value lam) ∧
    ∀ j : Fin n, 0 ≤ (t.reducedCosts.get j).value lam

/-! ## The solution -/

namespace Valid

/-- The basic values are those of the right-hand side under the inverse. -/
theorem entries_values (ht : t.Valid p) (lam : ℚ) :
    entries (t.values.value lam) = t.inverse.toMatrix *ᵥ entries (p.rhs.value lam) := by
  rw [ht.values_eq, AffineVector.entries_value_transform]

/-- The row that holds a column is found by it. -/
theorem holder?_basis (ht : t.Valid p) (i : Fin m) : t.holder? t.basis[i] = some i := by
  unfold holder?
  cases hfind : (List.finRange m).reverse.find? fun k => decide (t.basis[k] = t.basis[i]) with
  | none =>
    -- The row itself would have been found.
    have hi := List.find?_eq_none.1 hfind i (List.mem_reverse.2 (List.mem_finRange i))
    simp at hi
  | some k =>
    have hk := List.find?_some hfind
    rw [decide_eq_true_eq] at hk
    rw [ht.basis_injective hk]

end Valid

/-- No row is found for a column off the basis. -/
theorem holder?_of_notMem {j : Fin n} (hj : j ∉ t.basis) : t.holder? j = none := by
  unfold holder?
  rw [List.find?_eq_none]
  intro i _ hi
  rw [decide_eq_true_eq] at hi
  exact hj (mem_iff_exists_entries.2 ⟨i, hi⟩)

/-- Variables off the basis are zero. -/
theorem primal_of_notMem {j : Fin n} (hj : j ∉ t.basis) (lam : ℚ) : (t.primal lam)[j] = 0 := by
  simp [primal, holder?_of_notMem hj]

/-- The variable held by a row takes the row's value. -/
theorem Valid.primal_basis (ht : t.Valid p) (i : Fin m) (lam : ℚ) :
    (t.primal lam)[t.basis[i]] = (t.values.get i).value lam := by
  have h := ht.holder?_basis i
  simp only [getElem_fin] at h
  simp [primal, h]

/-- A vector that is zero off the basis is mapped by the columns of the basis alone. -/
theorem Valid.mulVec_eq (ht : t.Valid p) {x : Fin n → ℚ} (hx : ∀ j, j ∉ t.basis → x j = 0) :
    p.matrix.toMatrix *ᵥ x =
      p.matrix.toMatrix.submatrix id (entries t.basis) *ᵥ (x ∘ entries t.basis) := by
  funext k
  refine (Fintype.sum_of_injective (entries t.basis) ht.basis_injective _ _ ?_ fun i => rfl).symm
  intro j hj
  have hmem : j ∉ t.basis := fun h => hj (mem_iff_exists_entries.1 h)
  rw [hx j hmem, mul_zero]

/-- The basic solution satisfies the equations at every value of the parameter. -/
theorem Valid.primal_equations (ht : t.Valid p) (lam : ℚ) :
    p.matrix.mulVec (t.primal lam) = p.rhs.value lam := by
  have hbasic : entries (t.primal lam) ∘ entries t.basis = entries (t.values.value lam) := by
    funext i
    rw [AffineVector.entries_value]
    exact ht.primal_basis i lam
  have hoff : ∀ j, j ∉ t.basis → entries (t.primal lam) j = 0 := fun j hj => primal_of_notMem hj lam
  rw [Instance.mulVec_eq_rhs_iff, ht.mulVec_eq hoff, hbasic, ht.entries_values, mulVec_mulVec,
    ht.mul_inverse, one_mulVec]

/-- The basic solution is the only solution of the equations that is zero off the basis. -/
theorem Valid.eq_primal (ht : t.Valid p) {x : Vector ℚ n}
    (hx : p.matrix.mulVec x = p.rhs.value lam) (hzero : ∀ j : Fin n, j ∉ t.basis → x[j] = 0) :
    x = t.primal lam := by
  have hbasic : entries x ∘ entries t.basis = entries (t.values.value lam) := by
    rw [ht.entries_values, ← Instance.mulVec_eq_rhs_iff.1 hx, ht.mulVec_eq (x := entries x) hzero,
      mulVec_mulVec, ht.inverse_mul, one_mulVec]
  -- The equations determine the entries on the basis, and those off it are zero.
  refine entries_injective (funext fun j => ?_)
  by_cases hj : j ∈ t.basis
  · obtain ⟨i, rfl⟩ := mem_iff_exists_entries.1 hj
    have hi := congrFun hbasic i
    rw [AffineVector.entries_value] at hi
    exact hi.trans (ht.primal_basis i lam).symm
  · exact (hzero j hj).trans (primal_of_notMem hj lam).symm

/-! ## The multipliers -/

/-- The multipliers are the costs of the basis under the inverse. -/
theorem Valid.entries_dual (ht : t.Valid p) (lam : ℚ) : entries (t.dual lam) =
    (entries (p.cost.value lam) ∘ entries t.basis) ᵥ* t.inverse.toMatrix := by
  unfold dual
  rw [ht.duals_eq, AffineVector.entries_value_transformRow, AffineVector.entries_value_take]

/-- The multipliers price the columns of the basis at their costs. -/
theorem Valid.dual_of_mem (ht : t.Valid p) (lam : ℚ) {j : Fin n} (hj : j ∈ t.basis) :
    (entries (t.dual lam) ᵥ* p.matrix.toMatrix) j = (p.cost.value lam)[j] := by
  -- The inverse takes the prices of the basis back to its costs.
  have hprice : entries (t.dual lam) ᵥ* p.matrix.toMatrix.submatrix id (entries t.basis) =
      entries (p.cost.value lam) ∘ entries t.basis := by
    rw [ht.entries_dual, vecMul_vecMul, ht.inverse_mul, vecMul_one]
  obtain ⟨i, rfl⟩ := mem_iff_exists_entries.1 hj
  exact congrFun hprice i

/-- They are the only ones that do. -/
theorem Valid.eq_dual (ht : t.Valid p) {y : Vector ℚ m} (hy : ∀ j ∈ t.basis,
    (entries y ᵥ* p.matrix.toMatrix) j = (p.cost.value lam)[j]) : y = t.dual lam := by
  have hprice : entries y ᵥ* p.matrix.toMatrix.submatrix id (entries t.basis) =
      entries (p.cost.value lam) ∘ entries t.basis := by
    funext i
    exact hy _ (mem_iff_exists_entries.2 ⟨i, rfl⟩)
  refine entries_injective ?_
  -- Multiplying by the basis matrix and back changes nothing.
  calc entries y = entries y ᵥ* (p.matrix.toMatrix.submatrix id (entries t.basis) *
        t.inverse.toMatrix) := by rw [ht.mul_inverse, vecMul_one]
    _ = entries (t.dual lam) := by rw [← vecMul_vecMul, hprice, ht.entries_dual]

/-- The reduced costs held are those of the multipliers, also where they are set to zero. -/
theorem Valid.value_reducedCosts (ht : t.Valid p) (lam : ℚ) (j : Fin n) :
    (t.reducedCosts.get j).value lam = (p.reducedCosts lam (t.dual lam))[j] := by
  rw [Instance.getElem_reducedCosts, ht.get_reducedCosts]
  by_cases hj : j ∈ t.basis
  · rw [if_pos hj, ht.dual_of_mem lam hj, sub_self]
    show (0 : ℚ) + lam * 0 = 0
    rw [mul_zero, add_zero]
  · have hprice := AffineVector.entries_value_transformRow t.duals p.matrix lam
    rw [if_neg hj, Affine.value_sub]
    unfold dual
    rw [← hprice, AffineVector.entries_value, getElem_fin, AffineVector.getElem_value]

/-- A basic column has no reduced cost. -/
theorem Valid.value_reducedCosts_basis (ht : t.Valid p) (lam : ℚ) {j : Fin n} (hj : j ∈ t.basis) :
    (t.reducedCosts.get j).value lam = 0 := by
  rw [ht.get_reducedCosts, if_pos hj]
  show (0 : ℚ) + lam * 0 = 0
  rw [mul_zero, add_zero]

/-! ## Optimality -/

/-- Complementary slackness holds at every `lam`: one of the two factors is zero. -/
theorem Valid.complementary (ht : t.Valid p) (lam : ℚ) (j : Fin n) :
    (t.primal lam)[j] * (p.reducedCosts lam (t.dual lam))[j] = 0 := by
  by_cases hj : j ∈ t.basis
  · rw [← ht.value_reducedCosts, ht.value_reducedCosts_basis lam hj, mul_zero]
  · rw [primal_of_notMem hj, zero_mul]

/-- The solution of a valid tableau costs what its multipliers are worth. -/
theorem Valid.objective_eq (ht : t.Valid p) (lam : ℚ) :
    p.objective lam (t.primal lam) = p.dualObjective lam (t.dual lam) :=
  Instance.objective_eq_dualObjective (ht.primal_equations lam) (ht.complementary lam)

/-- Zero entries apart, the basic solution has the values of the rows, so both have the same lower
    bounds up to zero. -/
theorem Valid.le_primal_iff (ht : t.Valid p) {bound : ℚ} (hbound : bound ≤ 0) :
    (∀ j : Fin n, bound ≤ (t.primal lam)[j]) ↔
      ∀ i : Fin m, bound ≤ (t.values.get i).value lam := by
  constructor
  · intro h i
    rw [← ht.primal_basis]
    exact h _
  · intro h j
    by_cases hj : j ∈ t.basis
    · obtain ⟨i, rfl⟩ := mem_iff_exists_entries.1 hj
      rw [entries_apply, ht.primal_basis]
      exact h i
    · rw [primal_of_notMem hj]
      exact hbound

/-- A valid tableau shows by its signs whether its solution and multipliers are optimal. -/
theorem Valid.isOptimalPair_iff (ht : t.Valid p) :
    p.IsOptimalPair lam (t.primal lam) (t.dual lam) ↔ t.OptimalAt lam := by
  constructor
  · intro h
    refine ⟨(ht.le_primal_iff le_rfl).1 h.nonneg, fun j => ?_⟩
    rw [ht.value_reducedCosts]
    exact h.reduced_nonneg j
  · rintro ⟨hvalues, hreduced⟩
    refine ⟨ht.primal_equations lam, (ht.le_primal_iff le_rfl).2 hvalues, fun j => ?_,
      ht.complementary lam⟩
    rw [← ht.value_reducedCosts]
    exact hreduced j

/-- Two valid tableaus of the same columns have the same solution and the same multipliers. -/
theorem Valid.solution_congr (ht : t.Valid p) (ht' : t'.Valid p)
    (h : ∀ j, j ∈ t.basis ↔ j ∈ t'.basis) (lam : ℚ) :
    t'.primal lam = t.primal lam ∧ t'.dual lam = t.dual lam := by
  constructor
  · refine ht.eq_primal (ht'.primal_equations lam) fun j hj => ?_
    exact primal_of_notMem (fun hj' => hj ((h j).2 hj')) lam
  · exact ht.eq_dual fun j hj => ht'.dual_of_mem lam ((h j).1 hj)

/-- Where a valid tableau is optimal depends on the set of its columns only. -/
theorem Valid.optimalAt_congr (ht : t.Valid p) (ht' : t'.Valid p)
    (h : ∀ j, j ∈ t.basis ↔ j ∈ t'.basis) : t'.OptimalAt lam ↔ t.OptimalAt lam := by
  obtain ⟨hprimal, hdual⟩ := ht.solution_congr ht' h lam
  rw [← ht.isOptimalPair_iff, ← ht'.isOptimalPair_iff, hprimal, hdual]

end Tableau

end ParametricLP
