import Mathlib
import ParametricLP.Trace.Report
import ParametricLP.Proofs.Residuals
import ParametricLP.Proofs.Run.Exact
import ParametricLP.Proofs.Samples

/-!
# When the check accepts a path

On the path of a run two of the four conditions hold exactly, whatever the tolerance is: a recorded
tableau is valid, so its solution satisfies the equations, and complementary slackness holds because
one factor is zero. The `lam` decrease as well. What the check can object to are negative basic values
and negative reduced costs, and there are none of these where the tolerance resolves every decision of
the run.

A fixed tolerance does not resolve those of every run. The window in which ratios tie grows with
the largest of them, so one large ratio makes distinct small ones tie, and the choice among these may
take the wrong one.

## Key results

- `exists_verify_iff`: a path is accepted exactly where no recorded basis is too far from optimal
- `not_verify_of_isSuccess`: a path that counts as valid and is not accepted
-/

namespace ParametricLP

variable {m n : ℕ} {p : Instance ℚ m n}

namespace Tableau

variable {t : Tableau ℚ m n} {tol lam : ℚ}

/-- No basic value and no reduced cost lies below zero by more than `tol`. -/
def NearlyOptimalAt (t : Tableau ℚ m n) (tol lam : ℚ) : Prop :=
  (∀ i : Fin m, -tol ≤ (t.values.get i).value lam) ∧
    ∀ j : Fin n, -tol ≤ (t.reducedCosts.get j).value lam

/-- What is not negative is not far below zero. -/
theorem OptimalAt.nearlyOptimalAt (h : t.OptimalAt lam) (htol : 0 ≤ tol) :
    t.NearlyOptimalAt tol lam :=
  ⟨fun i => (neg_nonpos.2 htol).trans (h.1 i), fun j => (neg_nonpos.2 htol).trans (h.2 j)⟩

/-- What a valid tableau stands for is accepted exactly where the tableau is nearly optimal. -/
theorem Valid.isOptimal_iff (ht : t.Valid p) (htol : 0 ≤ tol) :
    p.isOptimal ⟨lam, t.primal lam, t.dual lam⟩ tol = true ↔ t.NearlyOptimalAt tol lam := by
  rw [Instance.isOptimal_iff htol]
  dsimp only
  constructor
  · -- Signs of the solution are those of the basic values, and zeros off the basis do not count.
    rintro ⟨-, hnonneg, hreduced, -⟩
    refine ⟨(ht.le_primal_iff (neg_nonpos.2 htol)).1 hnonneg, fun j => ?_⟩
    rw [ht.value_reducedCosts]
    exact hreduced j
  · rintro ⟨hvalues, hreduced⟩
    -- Equations and complementary slackness hold exactly.
    refine ⟨fun i => ?_, (ht.le_primal_iff (neg_nonpos.2 htol)).2 hvalues, fun j => ?_, fun j => ?_⟩
    · rw [ht.primal_equations, sub_self, abs_zero]
      exact htol
    · rw [← ht.value_reducedCosts]
      exact hreduced j
    · rw [ht.complementary, abs_zero]
      exact htol

end Tableau

/-- The tolerance of the check is not negative. -/
theorem Instance.optimalityTol_nonneg : (0 : ℚ) ≤ Instance.optimalityTol := by
  show (0 : ℚ) ≤ 1e-6
  norm_num

/-- The check accepts a path exactly where all bases recorded are nearly optimal. -/
theorem ValidPath.verify_iff {o : Outcome ℚ m n} (h : ValidPath p o.path) :
    p.verify o.entries = true ↔
      ∀ a ∈ o.path, a.held.NearlyOptimalAt Instance.optimalityTol a.lam := by
  have hlams : o.entries.map (·.lam) = o.path.map (·.lam) := List.map_map
  have hdecreasing : (o.entries.map (·.lam)).IsChain fun a b => b < a := by
    rw [hlams]
    exact (List.pairwise_map.2 h.decreasing).isChain
  -- Marks are recorded at decreasing `lam`, so the check of their order never fails.
  rw [Instance.verify_iff, and_iff_right hdecreasing]
  unfold Outcome.entries
  rw [List.forall_mem_map]
  exact forall₂_congr fun a ha => (h.valid a ha).isOptimal_iff Instance.optimalityTol_nonneg

/-- A run of any tolerance and any budgets gives a path that the check accepts exactly where no basis
    recorded has a basic value or a reduced cost too far below zero. This is so where the tolerance
    resolves every decision on the way. -/
theorem exists_verify_iff (p : Instance ℚ m n) (cfg : Config ℚ) :
    ∃ o, solve p cfg = .ok o ∧
      (p.verify o.entries = true ↔
        ∀ a ∈ o.path, a.held.NearlyOptimalAt Instance.optimalityTol a.lam) ∧
      (p.RunResolvedBy cfg → p.verify o.entries = true) := by
  obtain ⟨o, hsolve, hsolves⟩ := exists_solves p cfg
  have hiff := hsolves.validPath.verify_iff
  refine ⟨o, hsolve, hiff, fun hres => hiff.2 fun a ha => ?_⟩
  -- Where every decision is resolved, the bases are optimal, and all the more nearly so.
  exact ((hsolves.exact hres).covers.optimalAt a ha).nearlyOptimalAt Instance.optimalityTol_nonneg

/-! ## A path that is not accepted -/

/-- A problem whose column `3` enters at `lam = 8` with three ratios: `1`, a little more than `1`, and
    `2 ^ 20`. The last makes the window wide enough for the first two to tie. -/
def wideWindow : Instance ℚ 3 4 where
  matrix := #v[#v[1, 0, 0, 1], #v[0, 1, 0, 1], #v[0, 0, 1, 1]]
  rhs := ⟨#v[1, 1, 1048576], #v[0, 1 / 16384, 0]⟩
  cost := ⟨#v[0, 0, 0, -8], #v[0, 0, 0, 1]⟩
  basis := #v[0, 1, 2]
  rows_pos := by decide
  basis_injective := by decide

/-- The usual options, with the threshold at `4`. -/
def wideWindowConfig : Config ℚ where
  maxPivots := 10000
  threshold := 4
  maxBreakpoints := 1000
  tol := 1e-9
  maxStalls := none
  refactorEvery := 100
  threshold_finite := rfl
  threshold_nonneg := by norm_num
  maxBreakpoints_pos := by decide
  tol_pos := by norm_num
  maxStalls_pos := Options.forall_mem_none_pos
  refactorEvery_pos := by decide

/-- The run counts as a success, and its last entry has a negative variable. -/
theorem not_verify_of_isSuccess : wideWindowConfig.tol = 1e-9 ∧
    ∃ o, solve wideWindow wideWindowConfig = .ok o ∧ o.status.isSuccess = true ∧
      wideWindow.verify o.entries = false := by
  have hrun : (solve wideWindow wideWindowConfig).toOption.map
      (fun o => (o.status.isSuccess, wideWindow.verify o.entries)) = some (true, false) := by
    decide +kernel
  obtain ⟨o, hsolve, hrun⟩ := exists_of_map_toOption hrun
  obtain ⟨hstatus, hverify⟩ := Prod.mk.inj hrun
  exact ⟨rfl, o, hsolve, hstatus, hverify⟩

end ParametricLP
