import Mathlib
import ParametricLP.Proofs.Duality
import ParametricLP.Proofs.Residuals
import ParametricLP.Proofs.Samples

/-!
# How far an accepted solution is from the best one

The cost of any vector differs from the worth of any multipliers by its reduced costs, and by what
the multipliers pay for the equations that it violates. So a solution that passes the optimality
check with a tolerance costs at most a multiple of the tolerance more than any feasible one. The
multiple is the number of columns and the sizes of the competitor and of the multipliers. Without
tolerance the check is the equality of the two objectives.

## Key results

- `Instance.objective_sub_dualObjective_eq_add`: the gap where the equations need not hold
- `Instance.isOptimalPair_iff`: the four conditions are feasibility and equal objectives
- `accepted_within_gap`: what an accepted entry is worth
-/

namespace ParametricLP

open Matrix

namespace Instance

variable {m n : ℕ} {p : Instance ℚ m n} {lam tol : ℚ}

/-! ## The gap -/

/-- The gap between cost and worth, where `x` need not satisfy the equations: reduced costs of the
    variables, and the worth of what the equations miss. -/
theorem objective_sub_dualObjective_eq_add (x : Vector ℚ n) (y : Vector ℚ m) :
    p.objective lam x - p.dualObjective lam y =
      ∑ j : Fin n, x[j] * (p.reducedCosts lam y)[j] +
        ∑ i : Fin m, y[i] * ((p.matrix.mulVec x)[i] - (p.rhs.value lam)[i]) := by
  -- Reduced costs are costs less prices, so the first sum is the cost less the prices paid.
  have hcolumns : ∑ j : Fin n, x[j] * (p.reducedCosts lam y)[j] =
      p.objective lam x - entries y ⬝ᵥ p.matrix.toMatrix *ᵥ entries x := by
    rw [objective, dot_eq_dotProduct, dotProduct_mulVec, ← sub_dotProduct, ← entries_reducedCosts,
      dotProduct_comm]
    rfl
  -- The second sum turns the prices paid into the worth of the right-hand side.
  have hrows : ∑ i : Fin m, y[i] * ((p.matrix.mulVec x)[i] - (p.rhs.value lam)[i]) =
      entries y ⬝ᵥ p.matrix.toMatrix *ᵥ entries x - p.dualObjective lam y := by
    rw [dualObjective, dot_eq_dotProduct, dotProduct_comm (entries (p.rhs.value lam)),
      ← dotProduct_sub, ← Mat.entries_mulVec]
    rfl
  rw [hcolumns, hrows]
  ring

/-- Violations of the equations by at most `tol` are worth at most `tol` times the multipliers. -/
theorem sum_mul_violation_le {x : Vector ℚ n} (y : Vector ℚ m)
    (h : ∀ i : Fin m, |(p.matrix.mulVec x)[i] - (p.rhs.value lam)[i]| ≤ tol) :
    ∑ i : Fin m, y[i] * ((p.matrix.mulVec x)[i] - (p.rhs.value lam)[i]) ≤
      tol * ∑ i : Fin m, |y[i]| := by
  rw [Finset.mul_sum]
  apply Finset.sum_le_sum
  intro i _
  calc y[i] * ((p.matrix.mulVec x)[i] - (p.rhs.value lam)[i])
      ≤ |y[i] * ((p.matrix.mulVec x)[i] - (p.rhs.value lam)[i])| := le_abs_self _
    _ = |y[i]| * |(p.matrix.mulVec x)[i] - (p.rhs.value lam)[i]| := abs_mul _ _
    _ ≤ |y[i]| * tol := mul_le_mul_of_nonneg_left (h i) (abs_nonneg _)
    _ = tol * |y[i]| := mul_comm _ _

/-- Reduced costs of at least `-tol` lower the cost of a solution by at most `tol` times its size. -/
theorem neg_le_sum_mul_reducedCosts {x : Vector ℚ n} {y : Vector ℚ m}
    (hx : ∀ j : Fin n, 0 ≤ x[j]) (h : ∀ j : Fin n, -tol ≤ (p.reducedCosts lam y)[j]) :
    -(tol * ∑ j : Fin n, |x[j]|) ≤ ∑ j : Fin n, x[j] * (p.reducedCosts lam y)[j] := by
  rw [Finset.mul_sum, ← Finset.sum_neg_distrib]
  apply Finset.sum_le_sum
  intro j _
  have hprice := mul_le_mul_of_nonneg_left (h j) (hx j)
  -- What is nonnegative is its own size.
  rw [abs_of_nonneg (hx j)]
  linarith

/-- An accepted entry costs at most this much more than a feasible solution. -/
theorem objective_le_of_isOptimal {e : PathEntry ℚ m n} {x : Vector ℚ n} (htol : 0 ≤ tol)
    (h : p.isOptimal e tol = true) (hx : p.Feasible e.lam x) :
    p.objective e.lam e.x ≤ p.objective e.lam x +
      tol * (n + ∑ j : Fin n, |x[j]| + ∑ i : Fin m, |e.y[i]|) := by
  obtain ⟨hequations, -, hreduced, hcomplementary⟩ := (isOptimal_iff htol).1 h
  -- A product is at most the tolerance in each of the `n` columns.
  have hproducts : ∑ j : Fin n, e.x[j] * (p.reducedCosts e.lam e.y)[j] ≤ tol * n := by
    have hle := Finset.sum_le_card_nsmul Finset.univ
      (fun j : Fin n => e.x[j] * (p.reducedCosts e.lam e.y)[j]) tol fun j _ =>
        (le_abs_self _).trans (hcomplementary j)
    rwa [Finset.card_univ, Fintype.card_fin, nsmul_eq_mul, mul_comm] at hle
  have hviolations := sum_mul_violation_le e.y hequations
  have hcompetitor := neg_le_sum_mul_reducedCosts hx.2 hreduced
  -- Both costs are compared with the worth of the multipliers.
  have hgap : p.objective e.lam e.x - p.dualObjective e.lam e.y = _ :=
    objective_sub_dualObjective_eq_add e.x e.y
  have hgap' := objective_sub_dualObjective (y := e.y) hx.1
  rw [mul_add, mul_add]
  linarith

/-! ## No tolerance -/

/-- The four conditions hold exactly where both sides are feasible and their objectives agree. -/
theorem isOptimalPair_iff {x : Vector ℚ n} {y : Vector ℚ m} : p.IsOptimalPair lam x y ↔
    p.Feasible lam x ∧ p.DualFeasible lam y ∧ p.objective lam x = p.dualObjective lam y := by
  constructor
  · intro h
    exact ⟨h.feasible, h.dualFeasible, h.objective_eq⟩
  · rintro ⟨hx, hy, heq⟩
    have hreduced := dualFeasible_iff.1 hy
    have hgap := objective_sub_dualObjective (y := y) hx.1
    rw [heq, sub_self] at hgap
    -- The gap is a sum of products that are not negative, so each of them is zero.
    have hzero := (Finset.sum_eq_zero_iff_of_nonneg fun j _ =>
      mul_nonneg (hx.2 j) (hreduced j)).1 hgap.symm
    exact ⟨hx.1, hx.2, hreduced, fun j => hzero j (Finset.mem_univ j)⟩

/-- Without tolerance the check is that of the four conditions. -/
theorem isOptimal_zero_iff {e : PathEntry ℚ m n} :
    p.isOptimal e 0 = true ↔ p.IsOptimalPair e.lam e.x e.y := by
  rw [isOptimal_iff le_rfl]
  simp only [neg_zero, abs_nonpos_iff, sub_eq_zero]
  constructor
  -- An absolute value of at most zero is zero.
  · rintro ⟨hequations, hnonneg, hreduced, hcomplementary⟩
    exact ⟨entries_injective (funext hequations), hnonneg, hreduced, hcomplementary⟩
  · intro h
    refine ⟨fun i => ?_, h.nonneg, h.reduced_nonneg, h.complementary⟩
    rw [h.equations]

end Instance

variable {m n : ℕ}

/-- An entry that passes the check with a tolerance costs no more than any feasible solution, up to
    the tolerance times the number of columns and the sizes of that solution and of the multipliers.
    It passes without tolerance exactly where both sides are feasible and their objectives agree; then
    both are optimal. -/
theorem accepted_within_gap (p : Instance ℚ m n) (e : PathEntry ℚ m n) :
    (∀ tol, 0 ≤ tol → p.isOptimal e tol = true → ∀ x, p.Feasible e.lam x →
      p.objective e.lam e.x ≤ p.objective e.lam x +
        tol * (n + ∑ j : Fin n, |x[j]| + ∑ i : Fin m, |e.y[i]|)) ∧
    (p.isOptimal e 0 = true ↔ p.Feasible e.lam e.x ∧ p.DualFeasible e.lam e.y ∧
      p.objective e.lam e.x = p.dualObjective e.lam e.y) ∧
    (p.isOptimal e 0 = true → p.Minimises e.lam e.x ∧ p.Maximises e.lam e.y) := by
  refine ⟨fun tol htol h x hx => Instance.objective_le_of_isOptimal htol h hx, ?_, fun h => ?_⟩
  · rw [Instance.isOptimal_zero_iff, Instance.isOptimalPair_iff]
  · have hpair := Instance.isOptimal_zero_iff.1 h
    exact ⟨hpair.minimises, hpair.maximises⟩

/-- A solution that misses the equation a little and multipliers that price both columns a little
    below their costs pass with a tolerance of a hundredth. -/
theorem accepted_within_gap_twoSegments :
    twoSegments.isOptimal ⟨2, #v[1 / 2, 501 / 1000], #v[1999 / 1000]⟩ (1 / 100) = true ∧
      twoSegments.Feasible 2 #v[1, 0] ∧
      twoSegments.objective 2 #v[1 / 2, 501 / 1000] ≤ twoSegments.objective 2 #v[1, 0] +
        1 / 100 * ((2 : ℕ) + ∑ j : Fin 2, |(#v[(1 : ℚ), 0])[j]| +
          ∑ i : Fin 1, |(#v[(1999 : ℚ) / 1000])[i]|) := by
  have haccepted : twoSegments.isOptimal ⟨2, #v[1 / 2, 501 / 1000], #v[1999 / 1000]⟩ (1 / 100) =
      true := by
    -- The equation is missed by a thousandth, and so are both prices.
    decide +kernel
  have hfeasible : twoSegments.Feasible 2 #v[1, 0] :=
    ⟨by decide +kernel, by decide +kernel⟩
  exact ⟨haccepted, hfeasible, (accepted_within_gap twoSegments _).1 (1 / 100) (by norm_num)
    haccepted _ hfeasible⟩

end ParametricLP
