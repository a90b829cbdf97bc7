import Mathlib
import ParametricLP.Proofs.Tableau.Segment

/-!
# How a pivot moves the solution

When `entering` replaces the column held by `row`, the solution moves along the ray of the entering
column until the leaving variable is zero, and the multipliers move along the row of the inverse until
the entering column has no reduced cost. At a crossing one of the two steps has length zero.

## Key results

- `Valid.mulVec_ray`, `Valid.cost_ray`: the ray of a column keeps the equations
- `Valid.primal_pivot`, `Valid.dual_pivot`: how far solution and multipliers move
- `Valid.value_reducedCosts_pivot`: what becomes of the reduced costs
-/

namespace ParametricLP

namespace Tableau

open Matrix

variable {m n : ℕ} {p : Instance ℚ m n} {t t' : Tableau ℚ m n} {every : ℕ} {row : Fin m}
  {entering : Fin n} {lam : ℚ}

/-! ## The ray of an entering column -/

/-- The vector with given entries on the basis and zeros off it. -/
def spread (t : Tableau ℚ m n) (v : Fin m → ℚ) : Fin n → ℚ := fun j =>
  match t.holder? j with
  | some i => v i
  | none => 0

/-- How the variables move when column `j` increases by one. -/
def ray (p : Instance ℚ m n) (t : Tableau ℚ m n) (j : Fin n) : Fin n → ℚ :=
  Pi.single j 1 - t.spread (entries (t.column p j))

/-- Off the basis the entries are zero. -/
theorem spread_of_notMem (v : Fin m → ℚ) {j : Fin n} (hj : j ∉ t.basis) : t.spread v j = 0 := by
  unfold spread
  rw [holder?_of_notMem hj]

/-- On the basis they are the given ones. -/
theorem Valid.spread_basis (ht : t.Valid p) (v : Fin m → ℚ) (i : Fin m) :
    t.spread v t.basis[i] = v i := by
  unfold spread
  rw [ht.holder?_basis]

/-- The entering variable increases at unit speed. -/
theorem ray_self (h : entering ∉ t.basis) : t.ray p entering entering = 1 := by
  unfold ray
  rw [Pi.sub_apply, Pi.single_eq_same, spread_of_notMem _ h, sub_zero]

/-- The variable held by a row decreases at the speed of the column's entry there. -/
theorem Valid.ray_basis (ht : t.Valid p) (h : entering ∉ t.basis) (i : Fin m) :
    t.ray p entering t.basis[i] = -(t.column p entering)[i] := by
  have hne : t.basis[i] ≠ entering := fun heq => h (mem_iff_exists_entries.2 ⟨i, heq⟩)
  unfold ray
  rw [Pi.sub_apply, Pi.single_eq_of_ne hne, ht.spread_basis, zero_sub, entries_apply]

/-- All other variables stay as they are. -/
theorem ray_of_notMem {j : Fin n} (hj : j ∉ t.basis) (hne : j ≠ entering) :
    t.ray p entering j = 0 := by
  unfold ray
  rw [Pi.sub_apply, Pi.single_eq_of_ne hne, spread_of_notMem _ hj, sub_zero]

/-- Along the ray the equations keep holding. -/
theorem Valid.mulVec_ray (ht : t.Valid p) (j : Fin n) : p.matrix.toMatrix *ᵥ t.ray p j = 0 := by
  -- On the basis the ray undoes what the entering column contributes.
  have hbasic : t.spread (entries (t.column p j)) ∘ entries t.basis = entries (t.column p j) :=
    funext (ht.spread_basis _)
  unfold ray
  rw [mulVec_sub, mulVec_single_one, ht.mulVec_eq fun k hk => spread_of_notMem _ hk, hbasic,
    entries_column, mulVec_mulVec, ht.mul_inverse, one_mulVec, sub_self]

/-- Along the ray the cost changes at the rate of the reduced cost. -/
theorem Valid.cost_ray (ht : t.Valid p) (h : entering ∉ t.basis) (lam : ℚ) :
    entries (p.cost.value lam) ⬝ᵥ t.ray p entering = (t.reducedCosts.get entering).value lam := by
  -- The cost is what the multipliers charge together with the reduced cost.
  have hreduced : entries (p.cost.value lam) =
      entries (p.reducedCosts lam (t.dual lam)) + entries (t.dual lam) ᵥ* p.matrix.toMatrix := by
    rw [Instance.entries_reducedCosts, sub_add_cancel]
  rw [hreduced, add_dotProduct, ← dotProduct_mulVec, ht.mulVec_ray, dotProduct_zero, add_zero,
    ht.value_reducedCosts]
  -- Of the variables that move only the entering one has a reduced cost.
  have hsingle (j : Fin n) (hj : j ≠ entering) :
      entries (p.reducedCosts lam (t.dual lam)) j * t.ray p entering j = 0 := by
    by_cases hmem : j ∈ t.basis
    · rw [entries_apply, ← ht.value_reducedCosts, ht.value_reducedCosts_basis lam hmem, zero_mul]
    · rw [ray_of_notMem hmem hj, mul_zero]
  rw [dotProduct, Fintype.sum_eq_single entering hsingle, ray_self h, mul_one, entries_apply]

/-! ## What a pivot changes -/

/-- A column is held after a pivot exactly when it entered, or was held by another row. -/
theorem mem_basis_of_pivot {j : Fin n} (h : t.pivot p every row entering = .ok t') :
    j ∈ t'.basis ↔ j = entering ∨ ∃ i, i ≠ row ∧ t.basis[i] = j := by
  rw [basis_of_pivot_eq_ok h, mem_iff_exists_entries, entries_set]
  constructor
  · rintro ⟨i, hi⟩
    -- The pivot's row holds the entering column, and the other rows what they held.
    by_cases hrow : i = row
    · rw [hrow, Function.update_self] at hi
      exact .inl hi.symm
    · rw [Function.update_of_ne hrow] at hi
      exact .inr ⟨i, hrow, hi⟩
  · rintro (rfl | ⟨i, hrow, hi⟩)
    · exact ⟨row, Function.update_self ..⟩
    · exact ⟨i, by rw [Function.update_of_ne hrow]; exact hi⟩

/-- After a pivot the solution has moved along the ray until the leaving variable is zero. -/
theorem Valid.primal_pivot (ht : t.Valid p) (henter : entering ∉ t.basis)
    (hpivot : (t.column p entering)[row] ≠ 0) (h : t.pivot p every row entering = .ok t') (lam : ℚ) :
    entries (t'.primal lam) = entries (t.primal lam) +
      ((t.values.get row).value lam / (t.column p entering)[row]) • t.ray p entering := by
  have ht' := valid_of_pivot ht hpivot h
  set step := (t.values.get row).value lam / (t.column p entering)[row] with hstep
  let x : Vector ℚ n := Vector.ofFn (entries (t.primal lam) + step • t.ray p entering)
  -- A solution of the equations that is zero off the new basis is the basic one.
  have hx : p.matrix.mulVec x = p.rhs.value lam := by
    rw [Instance.mulVec_eq_rhs_iff, entries_ofFn, mulVec_add, mulVec_smul, ht.mulVec_ray, smul_zero,
      add_zero]
    exact Instance.mulVec_eq_rhs_iff.1 (ht.primal_equations lam)
  have hzero (j : Fin n) (hj : j ∉ t'.basis) : x[j] = 0 := by
    rw [mem_basis_of_pivot h, not_or] at hj
    show entries x j = 0
    rw [entries_ofFn, Pi.add_apply, Pi.smul_apply, smul_eq_mul, entries_apply]
    by_cases hmem : j ∈ t.basis
    · -- The only column that was held and is not any more is that of `row`.
      obtain ⟨i, rfl⟩ := mem_iff_exists_entries.1 hmem
      have hi : i = row := by
        by_contra hne
        exact hj.2 ⟨i, hne, rfl⟩
      rw [hi, entries_apply, ht.primal_basis, ht.ray_basis henter, hstep, mul_neg,
        div_mul_cancel₀ _ hpivot, add_neg_cancel]
    · rw [primal_of_notMem hmem, ray_of_notMem hmem hj.1, mul_zero, add_zero]
  rw [← ht'.eq_primal hx hzero, entries_ofFn]

/-- The entries of a row in the columns of the basis are those of a unit vector. -/
theorem Valid.row_basis (ht : t.Valid p) (row i : Fin m) :
    (t.row p row)[t.basis[i]] = if row = i then 1 else 0 := by
  -- The inverse makes unit vectors of the columns of the basis.
  have hone : (t.inverse.toMatrix * p.matrix.toMatrix.submatrix id (entries t.basis)) row i =
      (1 : Matrix (Fin m) (Fin m) ℚ) row i := by rw [ht.inverse_mul]
  have hrow := congrFun (entries_row (p := p) t row) t.basis[i]
  rw [Matrix.one_apply] at hone
  exact hrow.trans hone

/-- After a pivot the multipliers have moved along the row until the entering column has no reduced
    cost. -/
theorem Valid.dual_pivot (ht : t.Valid p) (hpivot : (t.column p entering)[row] ≠ 0)
    (h : t.pivot p every row entering = .ok t') (lam : ℚ) :
    entries (t'.dual lam) = entries (t.dual lam) +
      ((t.reducedCosts.get entering).value lam / (t.column p entering)[row]) •
        t.inverse.toMatrix row := by
  have ht' := valid_of_pivot ht hpivot h
  set step := (t.reducedCosts.get entering).value lam / (t.column p entering)[row] with hstep
  let y : Vector ℚ m := Vector.ofFn (entries (t.dual lam) + step • t.inverse.toMatrix row)
  have hprice (j : Fin n) : (entries y ᵥ* p.matrix.toMatrix) j =
      (entries (t.dual lam) ᵥ* p.matrix.toMatrix) j + step * (t.row p row)[j] := by
    rw [entries_ofFn, add_vecMul, smul_vecMul, ← entries_row, Pi.add_apply, Pi.smul_apply,
      smul_eq_mul, entries_apply]
  -- The new multipliers price the columns of the new basis at their costs.
  have hy (j : Fin n) (hj : j ∈ t'.basis) :
      (entries y ᵥ* p.matrix.toMatrix) j = (p.cost.value lam)[j] := by
    rw [hprice]
    rcases (mem_basis_of_pivot h).1 hj with rfl | ⟨i, hi, rfl⟩
    -- The step is chosen for the entering column, and the others have no entry in the row.
    · rw [getElem_row, hstep, div_mul_cancel₀ _ hpivot, ht.value_reducedCosts,
        Instance.getElem_reducedCosts, add_sub_cancel]
    · rw [ht.row_basis, if_neg (Ne.symm hi), mul_zero, add_zero]
      exact ht.dual_of_mem lam (mem_iff_exists_entries.2 ⟨i, rfl⟩)
  rw [← ht'.eq_dual hy, entries_ofFn]

/-- The reduced costs change by a multiple of the row. -/
theorem Valid.value_reducedCosts_pivot (ht : t.Valid p) (hpivot : (t.column p entering)[row] ≠ 0)
    (h : t.pivot p every row entering = .ok t') (lam : ℚ) (j : Fin n) :
    (t'.reducedCosts.get j).value lam = (t.reducedCosts.get j).value lam -
      (t.reducedCosts.get entering).value lam / (t.column p entering)[row] * (t.row p row)[j] := by
  have ht' := valid_of_pivot ht hpivot h
  rw [ht'.value_reducedCosts, ht.value_reducedCosts lam j, Instance.getElem_reducedCosts,
    Instance.getElem_reducedCosts, ht.dual_pivot hpivot h, add_vecMul, smul_vecMul, ← entries_row,
    Pi.add_apply, ← sub_sub]
  rfl

end Tableau

end ParametricLP
