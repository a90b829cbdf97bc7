import Mathlib
import ParametricLP.Proofs.Tableau.Pivot

/-!
# Ratio tests keep a basis optimal

At a crossing the ratio test chooses the candidate that limits the step most, so that no sign is lost
and the basis after the pivot is optimal where the one before was. Where there is no candidate, the
row or the ray is a certificate: the problem has no solution for any smaller `lam`.

## Key results

- `Valid.reducedCosts_nonneg_of_ratio`, `Valid.values_nonneg_of_ratio`: a smallest ratio keeps signs
- `Valid.optimalAt_of_entering`, `Valid.optimalAt_of_leaving`: the basis after a pivot is optimal
- `Valid.not_feasible_of_entering`, `Valid.ray_nonneg_of_leaving`: certificates below a breakpoint
-/

namespace ParametricLP

namespace Tableau

open Matrix

variable {m n : ℕ} {p : Instance ℚ m n} {t t' : Tableau ℚ m n} {every : ℕ} {row : Fin m}
  {entering column : Fin n} {tol lam : ℚ}

/-! ## Candidates -/

/-- Columns off the basis can enter whose entries are clearly negative. -/
theorem mem_enteringCandidates_iff {entries : Vector ℚ n} {j : Fin n} :
    j ∈ t.enteringCandidates tol entries ↔
      j ∈ t.nonbasic ∧ entries[j] < -Scalar.tolerance tol entries := by
  unfold enteringCandidates
  rw [List.mem_filter, decide_eq_true_eq]

/-- Rows can be left whose entries are clearly positive. -/
theorem mem_leavingCandidates_iff {direction : Vector ℚ m} {i : Fin m} :
    i ∈ leavingCandidates tol direction ↔ Scalar.tolerance tol direction < direction[i] := by
  unfold leavingCandidates
  rw [List.mem_filter, decide_eq_true_eq]
  exact and_iff_right (List.mem_finRange i)

/-- Without tolerance the columns that can enter are those off the basis with a negative entry. -/
theorem Valid.mem_enteringCandidates_zero_iff (ht : t.Valid p) {j : Fin n} :
    j ∈ t.enteringCandidates 0 (t.row p row) ↔ j ∉ t.basis ∧ (t.row p row)[j] < 0 := by
  rw [mem_enteringCandidates_iff, ht.mem_nonbasic_iff, Scalar.tolerance_zero, neg_zero]

/-- Without tolerance the rows that can be left are those with a positive entry. -/
theorem mem_leavingCandidates_zero_iff {direction : Vector ℚ m} {i : Fin m} :
    i ∈ leavingCandidates 0 direction ↔ 0 < direction[i] := by
  rw [mem_leavingCandidates_iff, Scalar.tolerance_zero]

/-- Exact ratios can always be compared, so the choice of a column is determined. -/
theorem entering_ne_undetermined (htol : 0 ≤ tol) :
    t.entering p tol lam row ≠ .undetermined :=
  Selection.argmin_ne_undetermined htol

/-- The choice of a row is determined likewise. -/
theorem leaving_ne_undetermined (htol : 0 ≤ tol) :
    t.leaving p tol lam column ≠ .undetermined :=
  Selection.argmin_ne_undetermined htol

/-- The column that enters is not basic, and its entry in the row is negative. -/
theorem Valid.entering_spec (ht : t.Valid p) (htol : 0 ≤ tol)
    (h : t.entering p tol lam row = .chosen entering) :
    entering ∉ t.basis ∧ (t.column p entering)[row] < 0 := by
  obtain ⟨hmem, hlt⟩ := mem_enteringCandidates_iff.1 (Selection.mem_of_argmin h)
  rw [getElem_row] at hlt
  have hbound := neg_nonpos.2 (Scalar.tolerance_nonneg htol (t.row p row))
  exact ⟨ht.mem_nonbasic_iff.1 hmem, hlt.trans_le hbound⟩

/-- The row that is left has a positive entry in the direction. -/
theorem leaving_spec (htol : 0 ≤ tol) (h : t.leaving p tol lam column = .chosen row) :
    0 < (t.column p column)[row] := by
  have hlt := mem_leavingCandidates_iff.1 (Selection.mem_of_argmin h)
  exact (Scalar.tolerance_nonneg htol _).trans_lt hlt

/-! ## A basic value crosses zero -/

/-- At the crossing of a basic value the solution stays where it is. -/
theorem Valid.primal_pivot_of_crossing (ht : t.Valid p) (henter : entering ∉ t.basis)
    (hpivot : (t.column p entering)[row] ≠ 0) (h : t.pivot p every row entering = .ok t')
    (hzero : (t.values.get row).value lam = 0) : t'.primal lam = t.primal lam := by
  refine entries_injective ?_
  rw [ht.primal_pivot henter hpivot h, hzero, zero_div, zero_smul, add_zero]

/-- Where no reduced cost is negative and the ratio of the entering column is smallest, the pivot makes
    none negative. -/
theorem Valid.reducedCosts_nonneg_of_ratio (ht : t.Valid p)
    (hneg : (t.column p entering)[row] < 0) (h : t.pivot p every row entering = .ok t')
    (hnonneg : ∀ j : Fin n, 0 ≤ (t.reducedCosts.get j).value lam)
    (hratio : ∀ j, j ∉ t.basis → (t.row p row)[j] < 0 →
      (t.reducedCosts.get entering).value lam / -(t.row p row)[entering] ≤
        (t.reducedCosts.get j).value lam / -(t.row p row)[j]) (j : Fin n) :
    0 ≤ (t'.reducedCosts.get j).value lam := by
  rw [ht.value_reducedCosts_pivot hneg.ne h]
  -- The step is the ratio of the chosen column, with its sign changed.
  have hstep : (t.reducedCosts.get entering).value lam / (t.column p entering)[row] ≤ 0 :=
    div_nonpos_of_nonneg_of_nonpos (hnonneg entering) hneg.le
  by_cases hj : j ∈ t.basis
  -- A basic column has no reduced cost before, and gains the step or nothing.
  · obtain ⟨i, rfl⟩ := mem_iff_exists_entries.1 hj
    rw [ht.value_reducedCosts_basis lam hj, entries_apply, ht.row_basis, zero_sub, neg_nonneg]
    exact mul_nonpos_of_nonpos_of_nonneg hstep (by split <;> norm_num)
  · by_cases hentry : (t.row p row)[j] < 0
    · -- A column with a negative entry has a ratio that is no smaller.
      have hle := hratio j hj hentry
      rw [getElem_row, div_neg, le_div_iff₀ (neg_pos.2 hentry), neg_mul_neg] at hle
      exact sub_nonneg.2 hle
    · exact sub_nonneg.2 ((mul_nonpos_of_nonpos_of_nonneg hstep (not_lt.1 hentry)).trans (hnonneg j))

/-- The ratio test of the entering column keeps every reduced cost nonnegative, and so the basis
    optimal. -/
theorem Valid.optimalAt_of_entering (ht : t.Valid p) (hopt : t.OptimalAt lam)
    (hzero : (t.values.get row).value lam = 0) (hchoice : t.entering p 0 lam row = .chosen entering)
    (h : t.pivot p every row entering = .ok t') : t'.OptimalAt lam := by
  obtain ⟨henter, hneg⟩ := ht.entering_spec le_rfl hchoice
  have ht' := valid_of_pivot ht hneg.ne h
  refine ⟨?_, ht.reducedCosts_nonneg_of_ratio hneg h hopt.2 fun j hj hentry => ?_⟩
  · -- The solution does not move, so no value becomes negative.
    rw [← ht'.le_primal_iff le_rfl, ht.primal_pivot_of_crossing henter hneg.ne h hzero]
    exact (ht.le_primal_iff le_rfl).2 hopt.1
  -- Every other column with a negative entry was a candidate of the test.
  · have hmem := ht.mem_enteringCandidates_zero_iff.2 ⟨hj, hentry⟩
    have hratio := Selection.le_of_argmin_zero hchoice hmem
    rwa [Scalar.positivePart_of_nonneg (hopt.2 entering),
      Scalar.positivePart_of_nonneg (hopt.2 j)] at hratio

/-- A row without candidates cannot be satisfied below the crossing of its value. -/
theorem Valid.not_feasible_of_entering (ht : t.Valid p) (hempty : t.entering p 0 lam row = .empty)
    (hcross : (t.values.get row).fallsToZero? 0 = some lam) {lam' : ℚ} (hlt : lam' < lam)
    (x : Vector ℚ n) : ¬ p.Feasible lam' x := by
  have hnil := Selection.argmin_eq_empty_iff.1 hempty
  -- No entry of the row is negative, but the value that they should add up to is.
  refine Instance.not_feasible_of_row (u := t.inverse.toMatrix row) (fun j => ?_) ?_ x
  · rw [← entries_row]
    by_cases hj : j ∈ t.basis
    · obtain ⟨i, rfl⟩ := mem_iff_exists_entries.1 hj
      rw [entries_apply, entries_apply, ht.row_basis]
      split <;> norm_num
    · by_contra hentry
      have hmem := ht.mem_enteringCandidates_zero_iff.2 ⟨hj, not_le.1 hentry⟩
      rw [hnil] at hmem
      exact List.not_mem_nil hmem
  · have hvalue := congrFun (ht.entries_values lam') row
    rw [AffineVector.entries_value] at hvalue
    exact hvalue.symm.trans_lt (Affine.value_neg_of_lt le_rfl hcross hlt)

/-! ## A reduced cost crosses zero -/

/-- At the crossing of a reduced cost the multipliers stay where they are. -/
theorem Valid.dual_pivot_of_crossing (ht : t.Valid p) (hpivot : (t.column p entering)[row] ≠ 0)
    (h : t.pivot p every row entering = .ok t')
    (hzero : (t.reducedCosts.get entering).value lam = 0) : t'.dual lam = t.dual lam := by
  refine entries_injective ?_
  rw [ht.dual_pivot hpivot h, hzero, zero_div, zero_smul, add_zero]

/-- Where no value is negative and the ratio of the row that is left is smallest, the pivot makes none
    negative. -/
theorem Valid.values_nonneg_of_ratio (ht : t.Valid p) (henter : entering ∉ t.basis)
    (hpos : 0 < (t.column p entering)[row]) (h : t.pivot p every row entering = .ok t')
    (hnonneg : ∀ i : Fin m, 0 ≤ (t.values.get i).value lam)
    (hratio : ∀ i : Fin m, 0 < (t.column p entering)[i] →
      (t.values.get row).value lam / (t.column p entering)[row] ≤
        (t.values.get i).value lam / (t.column p entering)[i]) (i : Fin m) :
    0 ≤ (t'.values.get i).value lam := by
  have ht' := valid_of_pivot ht hpos.ne' h
  -- The values of the rows are the entries of the solution, which moves along the ray.
  revert i
  rw [← ht'.le_primal_iff le_rfl]
  intro j
  have hmove := congrFun (ht.primal_pivot henter hpos.ne' h lam) j
  rw [entries_apply, Pi.add_apply, Pi.smul_apply, smul_eq_mul, entries_apply] at hmove
  rw [hmove]
  -- The step is the ratio of the chosen row.
  have hstep : 0 ≤ (t.values.get row).value lam / (t.column p entering)[row] :=
    div_nonneg (hnonneg row) hpos.le
  by_cases hj : j ∈ t.basis
  · obtain ⟨i, rfl⟩ := mem_iff_exists_entries.1 hj
    rw [entries_apply, ht.primal_basis, ht.ray_basis henter, mul_neg, ← sub_eq_add_neg, sub_nonneg]
    by_cases hentry : 0 < (t.column p entering)[i]
    · -- A row with a positive entry has a ratio that is no smaller.
      exact (le_div_iff₀ hentry).1 (hratio i hentry)
    · exact (mul_nonpos_of_nonneg_of_nonpos hstep (not_lt.1 hentry)).trans (hnonneg i)
  · rw [primal_of_notMem hj, zero_add]
    by_cases hself : j = entering
    · rw [hself, ray_self henter, mul_one]
      exact hstep
    · rw [ray_of_notMem hj hself, mul_zero]

/-- The ratio test of the leaving row keeps every value nonnegative, and so the basis optimal. -/
theorem Valid.optimalAt_of_leaving (ht : t.Valid p) (hopt : t.OptimalAt lam)
    (henter : entering ∉ t.basis) (hzero : (t.reducedCosts.get entering).value lam = 0)
    (hchoice : t.leaving p 0 lam entering = .chosen row)
    (h : t.pivot p every row entering = .ok t') : t'.OptimalAt lam := by
  have hpos := leaving_spec le_rfl hchoice
  have ht' := valid_of_pivot ht hpos.ne' h
  refine ⟨ht.values_nonneg_of_ratio henter hpos h hopt.1 fun i hentry => ?_, fun j => ?_⟩
  -- Every other row with a positive entry was a candidate of the test.
  · have hmem := mem_leavingCandidates_zero_iff.2 hentry
    have hratio := Selection.le_of_argmin_zero hchoice hmem
    rwa [Scalar.positivePart_of_nonneg (hopt.1 row),
      Scalar.positivePart_of_nonneg (hopt.1 i)] at hratio
  · -- The multipliers do not move, so no reduced cost becomes negative.
    rw [ht'.value_reducedCosts, ht.dual_pivot_of_crossing hpos.ne' h hzero, ← ht.value_reducedCosts]
    exact hopt.2 j

/-- A column without candidates gives a ray along which no variable decreases. -/
theorem Valid.ray_nonneg_of_leaving (ht : t.Valid p) (henter : entering ∉ t.basis)
    (hempty : t.leaving p 0 lam entering = .empty) (j : Fin n) : 0 ≤ t.ray p entering j := by
  have hnil := Selection.argmin_eq_empty_iff.1 hempty
  by_cases hj : j ∈ t.basis
  · obtain ⟨i, rfl⟩ := mem_iff_exists_entries.1 hj
    rw [entries_apply, ht.ray_basis henter, neg_nonneg]
    -- A row whose variable decreases would be a candidate.
    by_contra hentry
    have hmem := mem_leavingCandidates_zero_iff.2 (not_le.1 hentry)
    rw [hnil] at hmem
    exact List.not_mem_nil hmem
  · -- Off the basis the entering variable grows and the others stand still.
    by_cases hself : j = entering
    · rw [hself, ray_self henter]
      exact zero_le_one
    · rw [ray_of_notMem hj hself]

/-- Such a column leaves the problem without dual feasible multipliers and without a solution of
    least cost below the crossing of its reduced cost. -/
theorem Valid.not_dualFeasible_of_leaving (ht : t.Valid p) (henter : entering ∉ t.basis)
    (hempty : t.leaving p 0 lam entering = .empty)
    (hcross : (t.reducedCosts.get entering).fallsToZero? 0 = some lam) {lam' : ℚ}
    (hlt : lam' < lam) : (∀ y, ¬ p.DualFeasible lam' y) ∧ ∀ x, ¬ p.Minimises lam' x := by
  -- The cost falls along the ray by the reduced cost, which is negative there.
  have hcost : entries (p.cost.value lam') ⬝ᵥ t.ray p entering < 0 := by
    rw [ht.cost_ray henter]
    exact Affine.value_neg_of_lt le_rfl hcross hlt
  have hnonneg := ht.ray_nonneg_of_leaving henter hempty
  exact ⟨Instance.not_dualFeasible_of_ray (ht.mulVec_ray entering) hnonneg hcost,
    Instance.not_minimises_of_ray (ht.mulVec_ray entering) hnonneg hcost⟩

end Tableau

end ParametricLP
