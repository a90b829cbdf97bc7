import Mathlib
import ParametricLP.Optimality
import ParametricLP.Proofs.Mat.View

/-!
# What the optimality check measures

The residuals of an entry are largest violations of the four optimality conditions, so a bound on a
residual is a bound on every violation. A path is accepted when its `lam` decrease and every entry
stays within the tolerance.

## Key results

- `isOptimal_iff`: an accepted entry violates no condition by more than the tolerance
- `verify_iff`: what it means that a path is accepted
-/

namespace ParametricLP

namespace Instance

variable {m n : ℕ} {p : Instance ℚ m n} {e : PathEntry ℚ m n} {tol : ℚ}

/-- An entry is accepted exactly where no condition is violated by more than the tolerance. -/
theorem isOptimal_iff (htol : 0 ≤ tol) : p.isOptimal e tol = true ↔
    (∀ i : Fin m, |(p.matrix.mulVec e.x)[i] - (p.rhs.value e.lam)[i]| ≤ tol) ∧
      (∀ j : Fin n, -tol ≤ e.x[j]) ∧ (∀ j : Fin n, -tol ≤ (p.reducedCosts e.lam e.y)[j]) ∧
        ∀ j : Fin n, |e.x[j] * (p.reducedCosts e.lam e.y)[j]| ≤ tol := by
  -- Largest violations are bounded as every single one is.
  unfold isOptimal residuals
  simp only [List.all_cons, List.all_nil, Bool.and_true, Bool.and_eq_true, decide_eq_true_eq,
    Scalar.maxAbs_le_iff htol, maxNegativePart_le_iff htol, getElem_fin, Vector.getElem_ofFn]

/-- The check of the order compares neighbours, which is that of a chain. -/
theorem decreasing_iff (lams : List ℚ) :
    decreasing lams = true ↔ lams.IsChain fun a b => b < a := by
  fun_induction decreasing lams with
  | case1 a b rest ih => rw [Bool.and_eq_true, decide_eq_true_eq, sub_neg, ih, List.isChain_cons_cons]
  | case2 lams h =>
    -- Nothing follows in a list of at most one number.
    match lams with
    | [] => simp
    | [a] => simp
    | a :: b :: rest => exact absurd rfl (h a b rest)

/-- A path is accepted when its `lam` decrease and all its entries are. -/
theorem verify_iff {path : List (PathEntry ℚ m n)} : p.verify path tol = true ↔
    (path.map (·.lam)).IsChain (fun a b => b < a) ∧ ∀ e ∈ path, p.isOptimal e tol = true := by
  unfold verify
  rw [Bool.and_eq_true, decreasing_iff, List.all_eq_true]

end Instance

end ParametricLP
