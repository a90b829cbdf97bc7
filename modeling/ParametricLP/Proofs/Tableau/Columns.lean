import Mathlib
import ParametricLP.Trace.Breakpoint
import ParametricLP.Proofs.Mat.View

/-!
# The columns that a tableau holds

Whatever the numbers are, the rows of a tableau hold distinct columns, and the columns marked as
basic are those. A ratio test lets in none that is marked already, and a pivot keeps the marks in
step with the rows, whether its inverse can be computed or not.

## Key results

- `holdsDistinct_of_start`, `HoldsDistinct.swap`, `HoldsDistinct.of_pivot`: the invariant is kept
- `mem_nonbasic_of_entering`, `mem_nonbasic_of_nextBreakpoint`: what enters is not held
-/

namespace ParametricLP

namespace Tableau

variable {α : Type} {m n : ℕ} {t t' : Tableau α m n} {row : Fin m} {entering j : Fin n}

/-- The rows hold distinct columns, and the columns marked as basic are those. -/
structure HoldsDistinct (t : Tableau α m n) : Prop where
  isBasic_eq : t.isBasic = marks t.basis
  injective : Function.Injective (entries t.basis)

/-! ## Marks -/

/-- Off the basis are the columns that no row holds. -/
theorem mem_nonbasic_iff (hmarks : t.isBasic = marks t.basis) : j ∈ t.nonbasic ↔ j ∉ t.basis := by
  unfold nonbasic
  simp [hmarks]

/-- The marks stay those of the basis when one row holds another column. -/
theorem isBasic_swap (hmarks : t.isBasic = marks t.basis)
    (hinj : Function.Injective (entries t.basis)) (row : Fin m) (entering : Fin n) :
    (t.swap row entering).isBasic = marks (t.swap row entering).basis := by
  refine Vector.ext fun j hj => ?_
  rw [getElem_marks, basis_swap]
  unfold swap
  simp only [hmarks, Vector.getElem_set, getElem_marks, Vector.contains_eq_mem,
    mem_iff_exists_entries, entries_set]
  by_cases henter : (entering : ℕ) = j
  · -- The new column is held by `row`.
    have hj' : entering = ⟨j, hj⟩ := Fin.ext henter
    rw [if_pos henter, eq_comm, decide_eq_true_eq]
    exact ⟨row, by rw [Function.update_self, hj']⟩
  · rw [if_neg henter]
    have hrow (i : Fin m) : Function.update (entries t.basis) row entering i = ⟨j, hj⟩ ↔
        i ≠ row ∧ entries t.basis i = ⟨j, hj⟩ := by
      by_cases hi : i = row
      · rw [hi, Function.update_self]
        exact ⟨fun h => absurd (congrArg Fin.val h) henter, fun h => absurd rfl h.1⟩
      · rw [Function.update_of_ne hi]
        exact ⟨fun h => ⟨hi, h⟩, fun h => h.2⟩
    simp only [hrow]
    by_cases hleave : (t.basis[row] : ℕ) = j
    · -- The old column of `row` was held by that row only.
      have hold : entries t.basis row = ⟨j, hj⟩ := Fin.ext hleave
      rw [if_pos hleave, eq_comm, decide_eq_false_iff_not]
      rintro ⟨i, hi, heq⟩
      exact hi (hinj (heq.trans hold.symm))
    -- Any other column is held by the rows that held it before.
    · rw [if_neg hleave, decide_eq_decide]
      constructor
      · rintro ⟨i, hi⟩
        refine ⟨i, fun hir => hleave ?_, hi⟩
        rw [hir] at hi
        exact congrArg Fin.val hi
      · rintro ⟨i, -, hi⟩
        exact ⟨i, hi⟩

/-- Columns stay distinct when the one that enters is held by no other row. -/
theorem basis_swap_injective (hinj : Function.Injective (entries t.basis))
    (henter : ∀ i, t.basis[i] = entering → i = row) :
    Function.Injective (entries (t.swap row entering).basis) := by
  rw [basis_swap, entries_set]
  intro i k h
  -- Of two rows that hold the same column now, either both are `row` or neither is.
  by_cases hi : i = row <;> by_cases hk : k = row
  · rw [hi, hk]
  · rw [hi, Function.update_self, Function.update_of_ne hk] at h
    exact absurd (henter k h.symm) hk
  · rw [hk, Function.update_self, Function.update_of_ne hi] at h
    exact absurd (henter i h) hi
  · rw [Function.update_of_ne hi, Function.update_of_ne hk] at h
    exact hinj h

/-- Distinct columns stay distinct when one enters that was not held. -/
theorem HoldsDistinct.swap (h : t.HoldsDistinct) (row : Fin m) (henter : entering ∈ t.nonbasic) :
    (t.swap row entering).HoldsDistinct := by
  have hnone := (mem_nonbasic_iff h.isBasic_eq).1 henter
  refine ⟨isBasic_swap h.isBasic_eq h.injective row entering,
    basis_swap_injective h.injective fun i hi => ?_⟩
  exact absurd (mem_iff_exists_entries.2 ⟨i, hi⟩) hnone

variable [Scalar α] {p : Instance α m n}

/-! ## Pivots -/

/-- Computing the inverse changes neither the columns nor their marks. -/
theorem HoldsDistinct.of_refactor (h : t.HoldsDistinct) (hrefactor : t.refactor p = .ok t') :
    t'.HoldsDistinct := by
  simp only [refactor, Except.map] at hrefactor
  split at hrefactor
  · cases hrefactor
  · obtain rfl := Except.ok.inj hrefactor
    exact ⟨h.isBasic_eq, h.injective⟩

/-- A tableau starts with the distinct columns of its problem. -/
theorem holdsDistinct_of_start (h : start p = .ok t) : t.HoldsDistinct := by
  refine HoldsDistinct.of_refactor ⟨rfl, ?_⟩ h
  exact fun i j hij => p.basis_injective i j hij

/-- Whichever way a pivot gets its inverse, the columns held stay distinct. -/
theorem HoldsDistinct.of_pivot {every : ℕ} (h : t.HoldsDistinct) (henter : entering ∈ t.nonbasic)
    (hpivot : t.pivot p every row entering = .ok t') : t'.HoldsDistinct := by
  have hswap := h.swap row henter
  simp only [pivot] at hpivot
  split at hpivot
  -- The inverse was computed afresh, or it was corrected.
  · exact hswap.of_refactor hpivot
  · obtain rfl := Except.ok.inj hpivot
    exact ⟨hswap.isBasic_eq, hswap.injective⟩

/-! ## What enters -/

/-- The ratio test of a row lets in only columns that are not held. -/
theorem mem_nonbasic_of_entering {tol lam : α} (h : t.entering p tol lam row = .chosen j) :
    j ∈ t.nonbasic :=
  (List.mem_filter.1 (Selection.mem_of_argmin h)).1

/-- A column whose reduced cost falls to zero next is not held. -/
theorem mem_nonbasic_of_nextBreakpoint {tol : α} {b : Breakpoint α m n}
    (h : t.nextBreakpoint tol = .chosen b) (hcrossing : b.crossing = .dual j) :
    j ∈ t.nonbasic := by
  -- A crossing of a column is listed with the columns, not with the rows.
  rcases List.mem_append.1 (Selection.mem_of_argmax h).1 with hmem | hmem
  · obtain ⟨row, -, hrow⟩ := List.mem_filterMap.1 hmem
    obtain ⟨lam, -, rfl⟩ := Option.map_eq_some_iff.1 hrow
    exact nomatch hcrossing
  · obtain ⟨column, hcolumn, hlam⟩ := List.mem_filterMap.1 hmem
    obtain ⟨lam, -, rfl⟩ := Option.map_eq_some_iff.1 hlam
    obtain rfl := Crossing.dual.inj hcrossing
    exact hcolumn

end Tableau

end ParametricLP
