import Mathlib
import ParametricLP.Proofs.Mat.Condition
import ParametricLP.Proofs.Path.Optimality
import ParametricLP.Proofs.Tableau.Start

/-!
# Which starts are refused

A run is refused at its start where the basis it is given has no usable inverse, or where the check
of slopes and constants finds a fault. With a small tolerance that check decides a statement about
all large `lam`: whether the solution and the multipliers of the basis are optimal there. Both are
defined here from the inverse of the basis matrix, without a tableau.

## Key results

- `Tableau.exists_start_iff`: which bases have a starting tableau
- `Tableau.Valid.optimalAt_iff`: a tableau is optimal where its solution and its multipliers are
- `exists_tol_refused_iff`: which starts are refused
-/

namespace ParametricLP

open Matrix

variable {m n : ℕ} {p : Instance ℚ m n}

namespace Instance

/-- The solution of the equations at `lam` with the columns of the basis only. -/
noncomputable def basicSolution (p : Instance ℚ m n) (basis : Vector (Fin n) m) (lam : ℚ) :
    Vector ℚ n :=
  Vector.ofFn (Function.extend (entries basis)
    ((p.basisMatrix basis).toMatrix⁻¹ *ᵥ entries (p.rhs.value lam)) 0)

/-- The multipliers that price the columns of the basis at their costs at `lam`. -/
noncomputable def basicMultipliers (p : Instance ℚ m n) (basis : Vector (Fin n) m) (lam : ℚ) :
    Vector ℚ m :=
  Vector.ofFn ((entries (p.cost.value lam) ∘ entries basis) ᵥ* (p.basisMatrix basis).toMatrix⁻¹)

/-- At `lam` the solution and the multipliers of the basis are both optimal. -/
def BasisOptimalAt (p : Instance ℚ m n) (basis : Vector (Fin n) m) (lam : ℚ) : Prop :=
  p.Minimises lam (p.basicSolution basis lam) ∧ p.Maximises lam (p.basicMultipliers basis lam)

end Instance

namespace Tableau

variable {t : Tableau ℚ m n} {lam : ℚ}

/-! ## What a tableau stands for -/

/-- The inverse that a valid tableau holds is that of its basis matrix. -/
theorem Valid.inverse_eq (ht : t.Valid p) :
    (p.basisMatrix t.basis).toMatrix⁻¹ = t.inverse.toMatrix := by
  rw [Instance.basisMatrix, Mat.toMatrix_columns]
  exact Matrix.inv_eq_left_inv ht.inverse_mul

/-- The solution of a tableau is the basic solution. -/
theorem Valid.basicSolution_eq (ht : t.Valid p) (lam : ℚ) :
    p.basicSolution t.basis lam = t.primal lam := by
  refine entries_injective (funext fun j => ?_)
  rw [Instance.basicSolution, ht.inverse_eq, ← ht.entries_values, entries_ofFn]
  by_cases hj : j ∈ t.basis
  · -- A basic variable has the value of its row.
    obtain ⟨i, rfl⟩ := mem_iff_exists_entries.1 hj
    rw [ht.basis_injective.extend_apply, AffineVector.entries_value]
    exact (ht.primal_basis i lam).symm
  · -- Variables off the basis are zero on both sides.
    rw [Function.extend_apply' _ _ _ fun h => hj (mem_iff_exists_entries.2 h)]
    exact (primal_of_notMem hj lam).symm

/-- The multipliers of a tableau are those of the basis. -/
theorem Valid.basicMultipliers_eq (ht : t.Valid p) (lam : ℚ) :
    p.basicMultipliers t.basis lam = t.dual lam := by
  refine entries_injective ?_
  rw [Instance.basicMultipliers, ht.inverse_eq, entries_ofFn, ht.entries_dual]

/-- A tableau shows by its signs whether its basis is optimal. -/
theorem Valid.optimalAt_iff (ht : t.Valid p) :
    t.OptimalAt lam ↔ p.BasisOptimalAt t.basis lam := by
  rw [Instance.BasisOptimalAt, ht.basicSolution_eq, ht.basicMultipliers_eq]
  constructor
  · intro h
    exact ⟨(ht.solvedBy h).minimises, (ht.solvedBy h).maximises⟩
  · -- Feasibility on both sides says what the signs are.
    rintro ⟨⟨hfeasible, -⟩, ⟨hdual, -⟩⟩
    refine ⟨(ht.le_primal_iff le_rfl).1 hfeasible.2, fun j => ?_⟩
    rw [ht.value_reducedCosts]
    exact Instance.dualFeasible_iff.1 hdual j

/-! ## The starting tableau -/

/-- A basis has a starting tableau where its matrix is inverted. -/
theorem exists_start_iff : (∃ t, start p = .ok t) ↔
    (p.basisMatrix p.basis).toMatrix.det ≠ 0 ∧
      (p.basisMatrix p.basis).conditionNumber ≤ 10 ^ 12 := by
  -- The tolerance of the inversion is the reciprocal of the bound on the condition number.
  have htol (x : ℚ) : x * Mat.conditionTol ≤ 1 ↔ x ≤ 10 ^ 12 := by
    have hvalue : (Mat.conditionTol : ℚ) = (10 ^ 12)⁻¹ := by
      unfold Mat.conditionTol
      norm_num
    rw [hvalue, mul_inv_le_iff₀ (by norm_num), one_mul]
  rw [← htol, ← Mat.exists_inverse?_eq_ok_iff]
  unfold start ofBasis refactor
  dsimp only
  cases (p.basisMatrix p.basis).inverse? with
  -- The rest of the starting tableau is computed from the inverse and cannot fail.
  | error cause => exact ⟨nofun, nofun⟩
  | ok X => exact ⟨fun _ => ⟨X, rfl⟩, fun _ => ⟨_, rfl⟩⟩

/-- A starting tableau is optimal for all large `lam` where the basis is. -/
theorem exists_start_optimal_iff :
    (∃ t, start p = .ok t ∧ ∃ low, ∀ lam, low ≤ lam → t.OptimalAt lam) ↔
      (p.basisMatrix p.basis).toMatrix.det ≠ 0 ∧
        (p.basisMatrix p.basis).conditionNumber ≤ 10 ^ 12 ∧
          ∃ low, ∀ lam, low ≤ lam → p.BasisOptimalAt p.basis lam := by
  -- The starting tableau holds the starting basis.
  have hiff (t : Tableau ℚ m n) (hstart : start p = .ok t) (lam : ℚ) :
      t.OptimalAt lam ↔ p.BasisOptimalAt p.basis lam := by
    obtain ⟨ht, hbasis⟩ := valid_of_start hstart
    rw [ht.optimalAt_iff, hbasis]
  rw [← and_assoc, ← exists_start_iff]
  constructor
  · rintro ⟨t, hstart, low, hlow⟩
    exact ⟨⟨t, hstart⟩, low, fun lam hlam => (hiff t hstart lam).1 (hlow lam hlam)⟩
  · rintro ⟨⟨t, hstart⟩, low, hlow⟩
    exact ⟨t, hstart, low, fun lam hlam => (hiff t hstart lam).2 (hlow lam hlam)⟩

end Tableau

/-! ## Refused starts -/

/-- Where the tolerance resolves the decisions of the start, a run is refused for want of a starting
    tableau or because that tableau is not optimal for all large `lam`. -/
theorem Solves.status_eq_infeasibleStart_iff {cfg : Config ℚ} {o : Outcome ℚ m n}
    (h : Solves p cfg o) (hres : p.ResolvedBy cfg.threshold cfg.tol) :
    o.status = .infeasibleStart ↔
      ¬ ∃ t, Tableau.start p = .ok t ∧ ∃ low, ∀ lam, low ≤ lam → t.OptimalAt lam := by
  have hfault (t : Tableau ℚ m n) (hstart : Tableau.start p = .ok t) :
      t.startFault? cfg.tol = none ↔ ∃ low, ∀ lam, low ≤ lam → t.OptimalAt lam := by
    have ht := (Tableau.valid_of_start hstart).1
    rw [(hres t ht).startFault?_eq, ht.startFault?_zero_eq_none_iff]
  cases h with
  -- Without an inverse there is no starting tableau.
  | singular herror =>
    refine ⟨fun _ => ?_, fun _ => rfl⟩
    rintro ⟨t, hstart, -⟩
    exact nomatch (herror.symm.trans hstart)
  | refused hstart hrefused =>
    refine ⟨fun _ => ?_, fun _ => Tableau.status_of_startFault? hrefused⟩
    rintro ⟨t, hstart', hoptimal⟩
    obtain rfl := Except.ok.inj (hstart.symm.trans hstart')
    exact nomatch (hrefused.symm.trans ((hfault _ hstart).2 hoptimal))
  | traced hstart hpassed htrace =>
    -- A run that has started is not refused any more.
    refine ⟨fun hstatus => absurd hstatus htrace.status_ne_infeasibleStart, fun hnone => ?_⟩
    exact absurd ⟨_, hstart, (hfault _ hstart).1 hpassed⟩ hnone

/-- For all small tolerances a run is refused at its start exactly where the matrix of the starting
    basis is singular, or its condition number exceeds `10 ^ 12`, or the solution and the multipliers
    of the basis are not both optimal for all large `lam`. -/
theorem exists_tol_refused_iff (p : Instance ℚ m n) (cfg : Config ℚ) :
    ∃ tol₀, 0 < tol₀ ∧ ∀ tol (htol : 0 < tol), tol ≤ tol₀ →
      ∃ o, solve p (cfg.withTol tol htol) = .ok o ∧
        (o.status = .infeasibleStart ↔
          (p.basisMatrix p.basis).toMatrix.det = 0 ∨
          10 ^ 12 < (p.basisMatrix p.basis).conditionNumber ∨
          ¬ ∃ low, ∀ lam, low ≤ lam → p.BasisOptimalAt p.basis lam) := by
  obtain ⟨tol₀, hpos, hres⟩ :=
    eventually_nhdsGT_zero_iff.1 (p.eventually_resolvedBy cfg.threshold)
  refine ⟨tol₀, hpos, fun tol htol hle => ?_⟩
  obtain ⟨o, hsolve, hsolves⟩ := exists_solves p (cfg.withTol tol htol)
  refine ⟨o, hsolve, ?_⟩
  rw [hsolves.status_eq_infeasibleStart_iff (hres tol htol hle), Tableau.exists_start_optimal_iff,
    not_and_or, not_and_or, not_not, not_le]

end ParametricLP
