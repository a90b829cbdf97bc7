import Mathlib
import ParametricLP.Proofs.Run.Exact
import ParametricLP.Proofs.Run.Tightening
import ParametricLP.Proofs.Tableau.Reachable
import ParametricLP.Proofs.Samples

/-!
# Optimal just below a breakpoint

At a breakpoint several candidates of a ratio test may have the same ratio, and any of them keeps
the basis optimal there. The lexicographic rule takes the one of largest slope, whose ratio is the
smallest on an interval below the breakpoint as well. So the signs that were right on such an
interval are right on one after the pivot: those of the reduced costs where a basic value crosses,
and those of the values where a reduced cost does. A small tolerance decides as none does.

## Key results

- `Valid.nonnegJustBelow_of_entering`, `Valid.nonnegJustBelow_of_leaving`: without tolerance
- `Run.optimalAt_of_cross`: crossing a breakpoint with any small tolerance
-/

namespace ParametricLP

open Filter Topology

variable {m n k : ℕ} {p : Instance ℚ m n} {lam : ℚ}

/-! ## Signs just below -/

/-- No entry is negative at `lam` or on some interval below it. -/
def AffineVector.NonnegJustBelow (v : AffineVector ℚ k) (lam : ℚ) : Prop :=
  ∃ eps, 0 < eps ∧ ∀ x, lam - eps < x → x ≤ lam → ∀ i : Fin k, 0 ≤ (v.get i).value x

/-- On an interval below is near `lam` from the left. -/
theorem AffineVector.nonnegJustBelow_iff {v : AffineVector ℚ k} :
    v.NonnegJustBelow lam ↔ ∀ᶠ x in 𝓝[≤] lam, ∀ i : Fin k, 0 ≤ (v.get i).value x := by
  rw [Filter.Eventually, mem_nhdsLE_iff_exists_Ioc_subset]
  constructor
  · rintro ⟨eps, heps, h⟩
    exact ⟨lam - eps, sub_lt_self lam heps, fun x hx => h x hx.1 hx.2⟩
  · rintro ⟨low, hlow, h⟩
    refine ⟨lam - low, sub_pos.2 hlow, fun x hlt hle => h ⟨?_, hle⟩⟩
    rwa [sub_sub_cancel] at hlt

namespace Affine

/-- Of two functions the one that is smaller at `lam`, or as large there and steeper, is the smaller
    one just below. -/
theorem eventually_value_le {e f : Affine ℚ} (hle : e.value lam ≤ f.value lam)
    (hslope : f.value lam ≤ e.value lam → f.slope ≤ e.slope) :
    ∀ᶠ x in 𝓝[≤] lam, e.value x ≤ f.value x := by
  rcases hle.lt_or_eq with hlt | heq
  · -- A function that is smaller at `lam` is smaller near `lam`.
    have hnear : ∀ᶠ x in 𝓝 lam, e.value x < f.value x :=
      e.continuous_value.continuousAt.eventually_lt f.continuous_value.continuousAt hlt
    exact (hnear.filter_mono nhdsWithin_le_nhds).mono fun x hx => hx.le
  · -- From equal values the steeper function falls faster on the way down.
    filter_upwards [self_mem_nhdsWithin] with x hx
    rw [value_eq_add e x lam, value_eq_add f x lam, heq, add_le_add_iff_left]
    exact mul_le_mul_of_nonpos_left (hslope heq.ge) (sub_nonpos.2 hx)

/-- The same for their ratios to two numbers. -/
theorem eventually_ratio_le {e f : Affine ℚ} {c d : ℚ} (hle : e.value lam / c ≤ f.value lam / d)
    (hslope : f.value lam / d ≤ e.value lam / c → f.slope / d ≤ e.slope / c) :
    ∀ᶠ x in 𝓝[≤] lam, e.value x / c ≤ f.value x / d := by
  -- A ratio is the value of a function with both coefficients divided.
  have hscale (e : Affine ℚ) (c x : ℚ) : (e.scale c⁻¹).value x = e.value x / c := by
    unfold scale value
    ring
  simp only [← hscale] at hle hslope ⊢
  exact eventually_value_le hle hslope

end Affine

/-! ## The lexicographic ratio test -/

namespace Tableau

variable {t t' : Tableau ℚ m n} {every : ℕ} {row : Fin m} {entering : Fin n}

/-- The ratio of the column that enters is the smallest just below as well. -/
theorem Valid.eventually_ratio_le_of_entering (ht : t.Valid p) (hopt : t.OptimalAt lam)
    (hchoice : t.entering p 0 lam row = .chosen entering) {j : Fin n} (hj : j ∉ t.basis)
    (hentry : (t.row p row)[j] < 0) : ∀ᶠ x in 𝓝[≤] lam,
      (t.reducedCosts.get entering).value x / -(t.row p row)[entering] ≤
        (t.reducedCosts.get j).value x / -(t.row p row)[j] := by
  have hmem := ht.mem_enteringCandidates_zero_iff.2 ⟨hj, hentry⟩
  have hle := Selection.le_of_argmin_zero hchoice hmem
  have hslope := Selection.slope_le_of_argmin_zero hchoice hmem
  rw [Scalar.positivePart_of_nonneg (hopt.2 entering), Scalar.positivePart_of_nonneg (hopt.2 j)]
    at hle hslope
  exact Affine.eventually_ratio_le hle hslope

/-- Where a basic value crosses zero, reduced costs that are nonnegative just below stay so. -/
theorem Valid.nonnegJustBelow_of_entering (ht : t.Valid p) (hopt : t.OptimalAt lam)
    (hchoice : t.entering p 0 lam row = .chosen entering)
    (h : t.pivot p every row entering = .ok t') (hbelow : t.reducedCosts.NonnegJustBelow lam) :
    t'.reducedCosts.NonnegJustBelow lam := by
  obtain ⟨-, hneg⟩ := ht.entering_spec le_rfl hchoice
  rw [AffineVector.nonnegJustBelow_iff] at hbelow ⊢
  -- Finitely many ratios are compared on one interval.
  have hratio := eventually_all.2 fun j => eventually_imp_distrib_left.2 fun hj =>
    eventually_imp_distrib_left.2 (ht.eventually_ratio_le_of_entering hopt hchoice (j := j) hj)
  filter_upwards [hbelow, hratio] with x hnonneg hratio
  exact ht.reducedCosts_nonneg_of_ratio hneg h hnonneg hratio

/-- The ratio of the row that is left is the smallest just below as well. -/
theorem eventually_ratio_le_of_leaving (hopt : t.OptimalAt lam)
    (hchoice : t.leaving p 0 lam entering = .chosen row) {i : Fin m}
    (hentry : 0 < (t.column p entering)[i]) : ∀ᶠ x in 𝓝[≤] lam,
      (t.values.get row).value x / (t.column p entering)[row] ≤
        (t.values.get i).value x / (t.column p entering)[i] := by
  have hmem := mem_leavingCandidates_zero_iff.2 hentry
  have hle := Selection.le_of_argmin_zero hchoice hmem
  have hslope := Selection.slope_le_of_argmin_zero hchoice hmem
  rw [Scalar.positivePart_of_nonneg (hopt.1 row), Scalar.positivePart_of_nonneg (hopt.1 i)]
    at hle hslope
  exact Affine.eventually_ratio_le hle hslope

/-- Where a reduced cost crosses zero, values that are nonnegative just below stay so. -/
theorem Valid.nonnegJustBelow_of_leaving (ht : t.Valid p) (hopt : t.OptimalAt lam)
    (henter : entering ∉ t.basis) (hchoice : t.leaving p 0 lam entering = .chosen row)
    (h : t.pivot p every row entering = .ok t') (hbelow : t.values.NonnegJustBelow lam) :
    t'.values.NonnegJustBelow lam := by
  have hpos := leaving_spec le_rfl hchoice
  rw [AffineVector.nonnegJustBelow_iff] at hbelow ⊢
  have hratio := eventually_all.2 fun i => eventually_imp_distrib_left.2
    (eventually_ratio_le_of_leaving hopt hchoice (i := i))
  filter_upwards [hbelow, hratio] with x hnonneg hratio
  exact ht.values_nonneg_of_ratio henter hpos h hnonneg hratio

end Tableau

/-! ## Crossing a breakpoint -/

namespace Run

variable {run run' : Run ℚ m n} {b : Breakpoint ℚ m n}

/-- At a breakpoint where something that rises with `lam` is zero, a pivot with any small tolerance
    leads from an optimal basis to an optimal one. It keeps the reduced costs nonnegative just below
    where a basic value crosses, and the values where a reduced cost does. -/
theorem optimalAt_of_cross (cfg : Config ℚ) (hreach : run.tableau.Reachable p cfg.refactorEvery)
    (hopt : run.tableau.OptimalAt b.lam) (hzero : (run.tableau.crossed b.crossing).value b.lam = 0)
    (hslope : 0 < (run.tableau.crossed b.crossing).slope) :
    ∃ tol₀, 0 < tol₀ ∧ ∀ tol (htol : 0 < tol), tol ≤ tol₀ →
      ∃ pivoted, run.cross p (cfg.withTol tol htol) b = .ok pivoted ∧
        ∀ run', pivoted = .crossed run' → run'.tableau.OptimalAt b.lam ∧
          (∀ row, b.crossing = .primal row → run.tableau.reducedCosts.NonnegJustBelow b.lam →
            run'.tableau.reducedCosts.NonnegJustBelow b.lam) ∧
          (∀ column, b.crossing = .dual column → run.tableau.values.NonnegJustBelow b.lam →
            run'.tableau.values.NonnegJustBelow b.lam) := by
  have ht := hreach.valid
  -- Below some bound the tolerance does not change what the ratio tests choose.
  have hsmall := (eventually_all.2 (run.tableau.eventually_entering_eq (p := p) b.lam)).and
    (eventually_all.2 (run.tableau.eventually_leaving_eq (p := p) b.lam))
  obtain ⟨tol₀, hpos, hsmall⟩ := eventually_nhdsGT_zero_iff.1 hsmall
  refine ⟨tol₀, hpos, fun tol htol hle => ?_⟩
  obtain ⟨henter, hleave⟩ := hsmall tol htol hle
  obtain ⟨pivoted, hcross, hrel⟩ : ∃ pivoted, run.cross p (cfg.withTol tol htol) b = .ok pivoted ∧
      Crosses p (cfg.withTol tol htol) run b pivoted :=
    exists_crosses (fun _ => Tableau.entering_ne_undetermined htol.le)
      (fun _ => Tableau.leaving_ne_undetermined htol.le)
  refine ⟨pivoted, hcross, ?_⟩
  -- Without an exchange nothing is claimed.
  rintro run' rfl
  cases hrel with
  | exchanged hexchange hpivot =>
    cases hexchange with
    | primal hcrossing hchosen =>
      rw [hcrossing] at hzero
      have hchoice := (henter _).symm.trans hchosen
      refine ⟨ht.optimalAt_of_entering hopt hzero hchoice hpivot, fun _ _ hbelow => ?_, ?_⟩
      · exact ht.nonnegJustBelow_of_entering hopt hchoice hpivot hbelow
      · rintro column hcolumn
        exact nomatch hcrossing.symm.trans hcolumn
    | dual hcrossing hchosen =>
      rw [hcrossing] at hzero hslope
      -- A reduced cost that rises is not that of a basic column.
      have hchoice := (hleave _).symm.trans hchosen
      have hnotMem := ht.notMem_basis_of_slope hslope
      refine ⟨ht.optimalAt_of_leaving hopt hnotMem hzero hchoice hpivot, ?_, fun _ _ hbelow => ?_⟩
      · rintro row hrow
        exact nomatch hcrossing.symm.trans hrow
      · exact ht.nonnegJustBelow_of_leaving hopt hnotMem hchoice hpivot hbelow

end Run

/-! ## A tie -/

/-- The start at the tie, what it decides there without tolerance, and where the pivot leads. -/
theorem exists_start_steepTie : ∃ t t' : Tableau ℚ 1 3, Tableau.start steepTie = .ok t ∧
    t.values = ⟨#v[-1], #v[1]⟩ ∧ t.reducedCosts = ⟨#v[0, 1, 0], #v[0, 0, 1]⟩ ∧
    t.entering steepTie 0 1 0 = .chosen 2 ∧
    t.entering steepTie (budgets 3 4 0).tol 1 0 = .chosen 2 ∧
    t.pivot steepTie (budgets 3 4 0).refactorEvery 0 2 = .ok t' ∧ t'.basis = #v[2] := by
  have hrun : (Tableau.start steepTie).toOption.map (fun t =>
      (decide (t.values.constant = #v[-1] ∧ t.values.slope = #v[1] ∧
          t.reducedCosts.constant = #v[0, 1, 0] ∧ t.reducedCosts.slope = #v[0, 0, 1]),
        t.entering steepTie 0 1 0, t.entering steepTie (budgets 3 4 0).tol 1 0,
        (t.pivot steepTie (budgets 3 4 0).refactorEvery 0 2).toOption.map (·.basis))) =
      some (true, .chosen 2, .chosen 2, some #v[2]) := by
    decide +kernel
  obtain ⟨t, hstart, hrun⟩ := exists_of_map_toOption hrun
  simp only [Prod.mk.injEq, decide_eq_true_eq] at hrun
  obtain ⟨⟨hvalue, hrate, hcost, hcostRate⟩, hzero, hsmall, hpivot⟩ := hrun
  obtain ⟨t', hpivot, hbasis⟩ := exists_of_map_toOption hpivot
  refine ⟨t, t', hstart, ?_, ?_, hzero, hsmall, hpivot, hbasis⟩
  · rw [← hvalue, ← hrate]
  · rw [← hcost, ← hcostRate]

/-- The start at the tie: a small tolerance completes the pivot that keeps the reduced costs
    nonnegative just below. -/
theorem optimalAt_of_cross_steepTie : ∃ t : Tableau ℚ 1 3, Tableau.start steepTie = .ok t ∧
    t.entering steepTie (budgets 3 4 0).tol 1 0 = .chosen 2 ∧
    ∃ tol₀, 0 < tol₀ ∧ ∀ tol (htol : 0 < tol), tol ≤ tol₀ → ∃ run',
      (Run.start (budgets 3 4 0) t).cross steepTie ((budgets 3 4 0).withTol tol htol)
        ⟨1, .primal 0⟩ = .ok (.crossed run') ∧ run'.tableau.basis = #v[2] ∧
      run'.tableau.OptimalAt 1 ∧ run'.tableau.reducedCosts.NonnegJustBelow 1 := by
  obtain ⟨t, t', hstart, hvalues, hreduced, hzeroTol, hsmallTol, hpivot, hbasis⟩ :=
    exists_start_steepTie
  -- At `1` the value is zero and no reduced cost is negative.
  have hopt : t.OptimalAt 1 := by
    unfold Tableau.OptimalAt
    rw [hvalues, hreduced]
    decide +kernel
  -- Just below, the reduced costs are `0`, `1` and `lam` itself.
  have hbelow : t.reducedCosts.NonnegJustBelow 1 := by
    refine ⟨1, one_pos, fun x hx _ i => ?_⟩
    rw [hreduced]
    fin_cases i <;> simp [AffineVector.get, Affine.value]
    linarith
  have hzero : (t.values.get 0).value 1 = 0 := by rw [hvalues]; decide +kernel
  have hslope : 0 < (t.values.get 0).slope := by rw [hvalues]; decide +kernel
  have hreach : (Run.start (budgets 3 4 0) t).tableau.Reachable steepTie
      (budgets 3 4 0).refactorEvery := .start hstart
  obtain ⟨tol₀, hpos, hcross⟩ := Run.optimalAt_of_cross (b := ⟨1, .primal 0⟩) (budgets 3 4 0)
    hreach hopt hzero hslope
  -- A tolerance that is small enough lets the same column enter as none does.
  obtain ⟨tol₁, hpos', henter⟩ :=
    eventually_nhdsGT_zero_iff.1 (t.eventually_entering_eq (p := steepTie) 1 0)
  refine ⟨t, hstart, hsmallTol, min tol₀ tol₁, lt_min hpos hpos', fun tol htol hle => ?_⟩
  obtain ⟨pivoted, heq, hoptimal⟩ := hcross tol htol (hle.trans (min_le_left _ _))
  have hchosen := (henter tol htol (hle.trans (min_le_right _ _))).trans hzeroTol
  -- The exchange is completed by the pivot that was computed.
  obtain ⟨run', hcrossed, rfl⟩ : ∃ run', (Run.start (budgets 3 4 0) t).cross steepTie
      ((budgets 3 4 0).withTol tol htol) ⟨1, .primal 0⟩ = .ok (.crossed run') ∧
        run'.tableau = t' :=
    Run.exists_cross_eq_crossed (.primal rfl hchosen) hpivot
  obtain ⟨hopt', hprimal, -⟩ := hoptimal run' (Except.ok.inj (heq.symm.trans hcrossed))
  exact ⟨run', hcrossed, hbasis, hopt', hprimal 0 rfl hbelow⟩

end ParametricLP
