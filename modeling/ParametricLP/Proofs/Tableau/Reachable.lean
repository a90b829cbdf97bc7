import Mathlib
import ParametricLP.Proofs.Tableau.Valid

/-!
# Tableaus reached by pivots

A tableau is reached from a problem by starting at its basis and pivoting, in any rows and on any
columns. A pivot succeeds where the inverse can be corrected, which divides by the entry of the
pivot, or where it is computed afresh without finding the new basis singular. Either way the tableau
stays valid, whoever chooses the pivots.

## Key results

- `Reachable.valid`: every tableau reached is valid
-/

namespace ParametricLP

namespace Tableau

variable {m n : ℕ} {p : Instance ℚ m n} {every : ℕ}

/-- Reached from the starting basis by pivots that succeed. -/
inductive Reachable (p : Instance ℚ m n) (every : ℕ) : Tableau ℚ m n → Prop where
  | start {t : Tableau ℚ m n} (hstart : start p = .ok t) : Reachable p every t
  /-- While the inverse is corrected, there is no dividing by a zero entry. -/
  | pivot {t t' : Tableau ℚ m n} {row entering} (ht : Reachable p every t)
      (hentry : t.updates + 1 < every → (t.column p entering)[row] ≠ 0)
      (hpivot : t.pivot p every row entering = .ok t') : Reachable p every t'

/-- Every tableau reached is valid. -/
theorem Reachable.valid {t : Tableau ℚ m n} (h : Reachable p every t) : t.Valid p := by
  induction h with
  | start hstart => exact (valid_of_start hstart).1
  | @pivot t t' row entering _ hentry hpivot ih =>
    rcases Nat.lt_or_ge (t.updates + 1) every with hlt | hle
    · exact valid_of_pivot ih (hentry hlt) hpivot
    · -- An inverse computed afresh is right whatever the entry was.
      rw [pivot_of_le row entering hle] at hpivot
      have hmarks := isBasic_swap ih.isBasic_eq ih.basis_injective row entering
      exact (valid_of_refactor hmarks hpivot).1

end Tableau

end ParametricLP
