import Mathlib
import ParametricLP.Optimality
import ParametricLP.Proofs.Affine

/-!
# Weak duality

What it means to solve the problem at one `lam`: a solution is feasible and no feasible one costs
less; multipliers price no column above its cost and no others are worth more. A solution and
multipliers that satisfy the four optimality conditions do both, because the cost of a feasible
solution exceeds the worth of multipliers by `∑ j, x j * reduced j`.

Two certificates refute a problem: a row that no nonnegative solution can satisfy, and a direction
along which the cost falls without end.

## Key results

- `objective_sub_dualObjective`: the gap between cost and worth
- `IsOptimalPair.minimises`, `IsOptimalPair.maximises`: the four conditions suffice
- `not_feasible_of_row`, `not_dualFeasible_of_ray`, `not_minimises_of_ray`: certificates
-/

namespace ParametricLP

open Matrix

namespace Instance

variable {m n : ℕ} (p : Instance ℚ m n) (lam : ℚ)

/-- `x` satisfies the equations at `lam` and has no negative entry. -/
def Feasible (x : Vector ℚ n) : Prop :=
  p.matrix.mulVec x = p.rhs.value lam ∧ ∀ j : Fin n, 0 ≤ x[j]

/-- The multipliers `y` price no column above its cost at `lam`. -/
def DualFeasible (y : Vector ℚ m) : Prop :=
  ∀ j : Fin n, (Mat.vecMul y p.matrix)[j] ≤ (p.cost.value lam)[j]

/-- Cost of `x` at `lam`. -/
def objective (x : Vector ℚ n) : ℚ := dot (p.cost.value lam) x

/-- Worth of the right-hand side at `lam` under the multipliers `y`. -/
def dualObjective (y : Vector ℚ m) : ℚ := dot (p.rhs.value lam) y

/-- `x` solves the problem at `lam`. -/
def Minimises (x : Vector ℚ n) : Prop :=
  p.Feasible lam x ∧ ∀ x', p.Feasible lam x' → p.objective lam x ≤ p.objective lam x'

/-- `y` solves the dual problem at `lam`. -/
def Maximises (y : Vector ℚ m) : Prop :=
  p.DualFeasible lam y ∧ ∀ y', p.DualFeasible lam y' → p.dualObjective lam y' ≤ p.dualObjective lam y

/-- The optimality conditions at `lam`: the equations hold, no variable and no reduced cost is
    negative, and no variable is positive together with its reduced cost. -/
structure IsOptimalPair (x : Vector ℚ n) (y : Vector ℚ m) : Prop where
  equations : p.matrix.mulVec x = p.rhs.value lam
  nonneg : ∀ j : Fin n, 0 ≤ x[j]
  reduced_nonneg : ∀ j : Fin n, 0 ≤ (p.reducedCosts lam y)[j]
  complementary : ∀ j : Fin n, x[j] * (p.reducedCosts lam y)[j] = 0

variable {p lam}

/-! ## The problem through the views -/

/-- Reduced costs are costs less the prices of the columns. -/
theorem entries_reducedCosts (y : Vector ℚ m) :
    entries (p.reducedCosts lam y) = entries (p.cost.value lam) - entries y ᵥ* p.matrix.toMatrix := by
  rw [← Mat.entries_vecMul]
  unfold reducedCosts
  rw [entries_ofFn]
  rfl

/-- The reduced cost of one column. -/
theorem getElem_reducedCosts (p : Instance ℚ m n) (lam : ℚ) (y : Vector ℚ m) (j : Fin n) :
    (p.reducedCosts lam y)[j] =
      (p.cost.value lam)[j] - (entries y ᵥ* p.matrix.toMatrix) j := by
  rw [← entries_apply, entries_reducedCosts, Pi.sub_apply, entries_apply]

/-- The equations, for the matrix and the vectors as functions of their positions. -/
theorem mulVec_eq_rhs_iff {x : Vector ℚ n} : p.matrix.mulVec x = p.rhs.value lam ↔
    p.matrix.toMatrix *ᵥ entries x = entries (p.rhs.value lam) := by
  rw [← Mat.entries_mulVec]
  exact entries_injective.eq_iff.symm

/-- Multipliers are dual feasible where no reduced cost is negative. -/
theorem dualFeasible_iff {y : Vector ℚ m} :
    p.DualFeasible lam y ↔ ∀ j : Fin n, 0 ≤ (p.reducedCosts lam y)[j] := by
  have hentry (j : Fin n) : (p.reducedCosts lam y)[j] =
      (p.cost.value lam)[j] - (Mat.vecMul y p.matrix)[j] := by
    simp [reducedCosts]
  -- Nonnegative reduced costs are prices not above the costs.
  simp only [DualFeasible, hentry, sub_nonneg]

/-! ## Weak duality -/

/-- The cost of a solution of the equations exceeds the worth of any multipliers by the reduced
    costs of its variables. -/
theorem objective_sub_dualObjective {x : Vector ℚ n} {y : Vector ℚ m}
    (hx : p.matrix.mulVec x = p.rhs.value lam) :
    p.objective lam x - p.dualObjective lam y = ∑ j : Fin n, x[j] * (p.reducedCosts lam y)[j] := by
  -- By the equations the multipliers' worth is their price for the columns that `x` uses.
  have hworth : p.dualObjective lam y = entries y ᵥ* p.matrix.toMatrix ⬝ᵥ entries x := by
    unfold dualObjective
    rw [dot_eq_dotProduct, ← mulVec_eq_rhs_iff.1 hx, dotProduct_comm, dotProduct_mulVec]
  unfold objective
  rw [hworth, dot_eq_dotProduct, ← sub_dotProduct, ← entries_reducedCosts, dotProduct_comm]
  rfl

/-- With complementary slackness the two are the same. -/
theorem objective_eq_dualObjective {x : Vector ℚ n} {y : Vector ℚ m}
    (hx : p.matrix.mulVec x = p.rhs.value lam)
    (hslack : ∀ j : Fin n, x[j] * (p.reducedCosts lam y)[j] = 0) :
    p.objective lam x = p.dualObjective lam y := by
  have hgap := objective_sub_dualObjective (y := y) hx
  -- Every product vanishes, so the gap between the two is zero.
  rw [Finset.sum_eq_zero fun j _ => hslack j] at hgap
  exact sub_eq_zero.1 hgap

/-- No multipliers are worth more than a feasible solution costs. -/
theorem dualObjective_le_objective {x : Vector ℚ n} {y : Vector ℚ m} (hx : p.Feasible lam x)
    (hy : p.DualFeasible lam y) : p.dualObjective lam y ≤ p.objective lam x := by
  have hgap : 0 ≤ p.objective lam x - p.dualObjective lam y := by
    rw [objective_sub_dualObjective hx.1]
    -- Both factors of each product are nonnegative.
    exact Finset.sum_nonneg fun j _ => mul_nonneg (hx.2 j) (dualFeasible_iff.1 hy j)
  exact sub_nonneg.1 hgap

namespace IsOptimalPair

variable {x : Vector ℚ n} {y : Vector ℚ m}

/-- The solution of an optimal pair is feasible. -/
theorem feasible (h : p.IsOptimalPair lam x y) : p.Feasible lam x :=
  ⟨h.equations, h.nonneg⟩

/-- The multipliers of an optimal pair are dual feasible. -/
theorem dualFeasible (h : p.IsOptimalPair lam x y) : p.DualFeasible lam y :=
  dualFeasible_iff.2 h.reduced_nonneg

/-- The objectives of an optimal pair agree. -/
theorem objective_eq (h : p.IsOptimalPair lam x y) : p.objective lam x = p.dualObjective lam y :=
  objective_eq_dualObjective h.equations h.complementary

/-- The solution of an optimal pair is a cheapest one. -/
theorem minimises (h : p.IsOptimalPair lam x y) : p.Minimises lam x := by
  refine ⟨h.feasible, fun x' hx' => ?_⟩
  -- Its cost is the worth of its multipliers, which bounds every cost from below.
  rw [h.objective_eq]
  exact dualObjective_le_objective hx' h.dualFeasible

/-- The multipliers of an optimal pair are worth most. -/
theorem maximises (h : p.IsOptimalPair lam x y) : p.Maximises lam y := by
  refine ⟨h.dualFeasible, fun y' hy' => ?_⟩
  -- Their worth is the cost of the solution, which bounds every worth from above.
  rw [← h.objective_eq]
  exact dualObjective_le_objective h.feasible hy'

end IsOptimalPair

/-! ## Certificates -/

/-- Multipliers that price every column at zero or more, but the right-hand side below zero, show
    that nothing is feasible. -/
theorem not_feasible_of_row {u : Fin m → ℚ} (hu : ∀ j, 0 ≤ (u ᵥ* p.matrix.toMatrix) j)
    (hrhs : u ⬝ᵥ entries (p.rhs.value lam) < 0) (x : Vector ℚ n) : ¬ p.Feasible lam x := by
  intro hx
  -- A feasible solution makes the same number a sum of products that are not negative.
  have hworth : u ⬝ᵥ entries (p.rhs.value lam) = u ᵥ* p.matrix.toMatrix ⬝ᵥ entries x := by
    rw [← mulVec_eq_rhs_iff.1 hx.1, dotProduct_mulVec]
  rw [hworth] at hrhs
  exact absurd hrhs (not_lt.2 (Finset.sum_nonneg fun j _ => mul_nonneg (hu j) (hx.2 j)))

variable {d : Fin n → ℚ}

/-- A direction that keeps the equations, decreases no variable and lowers the cost shows that no
    multipliers are dual feasible. -/
theorem not_dualFeasible_of_ray (hd : p.matrix.toMatrix *ᵥ d = 0) (hnonneg : ∀ j, 0 ≤ d j)
    (hcost : entries (p.cost.value lam) ⬝ᵥ d < 0) (y : Vector ℚ m) : ¬ p.DualFeasible lam y := by
  intro hy
  -- The multipliers price the direction at zero, but at no more than its cost.
  have hprice : entries y ᵥ* p.matrix.toMatrix ⬝ᵥ d = 0 := by
    rw [← dotProduct_mulVec, hd, dotProduct_zero]
  have hle : entries y ᵥ* p.matrix.toMatrix ⬝ᵥ d ≤ entries (p.cost.value lam) ⬝ᵥ d := by
    refine Finset.sum_le_sum fun j _ => mul_le_mul_of_nonneg_right ?_ (hnonneg j)
    rw [← Mat.entries_vecMul]
    exact hy j
  rw [hprice] at hle
  exact absurd hcost (not_lt.2 hle)

/-- Nor does the problem have a solution of least cost: along the direction every solution has a
    cheaper one. -/
theorem not_minimises_of_ray (hd : p.matrix.toMatrix *ᵥ d = 0) (hnonneg : ∀ j, 0 ≤ d j)
    (hcost : entries (p.cost.value lam) ⬝ᵥ d < 0) (x : Vector ℚ n) : ¬ p.Minimises lam x := by
  rintro ⟨⟨hx, hx0⟩, hmin⟩
  -- One step along the direction is feasible as well, and cheaper.
  let x' : Vector ℚ n := Vector.ofFn (entries x + d)
  have hx' : p.Feasible lam x' := by
    refine ⟨mulVec_eq_rhs_iff.2 ?_, fun j => ?_⟩
    · -- The equations hold because the direction changes neither side.
      rw [entries_ofFn, mulVec_add, hd, add_zero]
      exact mulVec_eq_rhs_iff.1 hx
    · show 0 ≤ entries x' j
      rw [entries_ofFn]
      exact add_nonneg (hx0 j) (hnonneg j)
  have hle := hmin x' hx'
  unfold objective at hle
  rw [dot_eq_dotProduct, dot_eq_dotProduct, entries_ofFn, dotProduct_add] at hle
  -- The step would have to cost nothing, but it lowers the cost.
  linarith

end Instance

end ParametricLP
