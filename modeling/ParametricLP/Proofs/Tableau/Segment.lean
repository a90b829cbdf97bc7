import Mathlib
import ParametricLP.Trace.Run
import ParametricLP.Proofs.Selection
import ParametricLP.Proofs.Tableau.Solution

/-!
# The segment on which a basis is optimal

Whatever can fall to zero, a basic value or a reduced cost, is an affine function of `lam`. A basis
that is optimal at some `top` is therefore optimal on a whole segment below it, which ends at the
largest `lam` where one of these functions falls to zero. Without tolerance that is the `lam` which
`nextBreakpoint` selects.

## Key results

- `Valid.nextBreakpoint_zero`: without tolerance the next breakpoint is the largest crossing
- `OptimalTowards.optimalAt`: a basis stays optimal down to its largest crossing
- `not_optimalAt_of_lt`: and not below it
- `Valid.startFault?_zero_eq_none_iff`: a start has no fault where it is optimal for all large `lam`
-/

namespace ParametricLP

open Filter

namespace Tableau

variable {m n : ℕ} {p : Instance ℚ m n} {t : Tableau ℚ m n} {tol lam top : ℚ}
  {b : Breakpoint ℚ m n} {bound : Option ℚ}

/-- The function of `lam` that a crossing is about. -/
def crossed (t : Tableau ℚ m n) : Crossing m n → Affine ℚ
  | .primal row => t.values.get row
  | .dual column => t.reducedCosts.get column

/-- A tableau is optimal exactly where none of its functions is negative. -/
theorem optimalAt_iff_crossed : t.OptimalAt lam ↔ ∀ c, 0 ≤ (t.crossed c).value lam := by
  constructor
  · rintro ⟨hvalues, hreduced⟩ (row | column)
    · exact hvalues row
    · exact hreduced column
  · intro h
    exact ⟨fun row => h (.primal row), fun column => h (.dual column)⟩

/-! ## The candidates for the next breakpoint -/

/-- A row is a candidate where its basic value falls to zero. -/
theorem mem_rowCrossings_iff : b ∈ t.rowCrossings tol ↔ ∃ row, b.crossing = .primal row ∧
    (t.values.get row).fallsToZero? (Scalar.tolerance tol t.values.slope) = some b.lam := by
  unfold rowCrossings
  simp only [List.mem_filterMap, List.mem_finRange, true_and, Option.map_eq_some_iff]
  constructor
  · rintro ⟨row, lam, hlam, rfl⟩
    exact ⟨row, rfl, hlam⟩
  · rintro ⟨row, hrow, hlam⟩
    exact ⟨row, b.lam, hlam, by rw [← hrow]⟩

/-- A column off the basis is a candidate where its reduced cost falls to zero. -/
theorem mem_columnCrossings_iff : b ∈ t.columnCrossings tol ↔ ∃ column ∈ t.nonbasic,
    b.crossing = .dual column ∧ (t.reducedCosts.get column).fallsToZero?
      (Scalar.tolerance tol t.reducedCosts.slope) = some b.lam := by
  unfold columnCrossings
  simp only [List.mem_filterMap, Option.map_eq_some_iff]
  constructor
  · rintro ⟨column, hmem, lam, hlam, rfl⟩
    exact ⟨column, hmem, rfl, hlam⟩
  · rintro ⟨column, hmem, hcolumn, hlam⟩
    exact ⟨column, hmem, b.lam, hlam, by rw [← hcolumn]⟩

/-- At every candidate something that rises with `lam` is zero, and no column of the basis is a
    candidate of its own. -/
theorem crossed_of_mem (htol : 0 ≤ tol) (h : b ∈ t.rowCrossings tol ++ t.columnCrossings tol) :
    (∃ slopeTol, 0 ≤ slopeTol ∧ (t.crossed b.crossing).fallsToZero? slopeTol = some b.lam) ∧
      ∀ column, b.crossing = .dual column → column ∈ t.nonbasic := by
  rcases List.mem_append.1 h with h | h
  · obtain ⟨row, hrow, hlam⟩ := mem_rowCrossings_iff.1 h
    rw [hrow]
    exact ⟨⟨_, Scalar.tolerance_nonneg htol _, hlam⟩, fun column hcolumn => nomatch hcolumn⟩
  · obtain ⟨column, hmem, hcolumn, hlam⟩ := mem_columnCrossings_iff.1 h
    rw [hcolumn]
    refine ⟨⟨_, Scalar.tolerance_nonneg htol _, hlam⟩, fun column' h' => ?_⟩
    cases h'
    exact hmem

/-- A reduced cost that rises with `lam` is that of a column outside the basis. -/
theorem Valid.notMem_basis_of_slope (ht : t.Valid p) {column : Fin n}
    (h : 0 < (t.reducedCosts.get column).slope) : column ∉ t.basis := by
  intro hmem
  rw [ht.get_reducedCosts, if_pos hmem] at h
  exact lt_irrefl _ h

/-- What falls to zero in a valid tableau is a candidate without tolerance. -/
theorem Valid.mem_crossings (ht : t.Valid p)
    (h : (t.crossed b.crossing).fallsToZero? 0 = some b.lam) :
    b ∈ t.rowCrossings 0 ++ t.columnCrossings 0 := by
  rw [List.mem_append]
  cases hb : b.crossing with
  | primal row =>
    rw [hb] at h
    left
    rw [mem_rowCrossings_iff, Scalar.tolerance_zero]
    exact ⟨row, hb, h⟩
  | dual column =>
    rw [hb] at h
    right
    rw [mem_columnCrossings_iff, Scalar.tolerance_zero]
    have hbasis := ht.notMem_basis_of_slope (Affine.fallsToZero?_eq_some_iff.1 h).1
    exact ⟨column, ht.mem_nonbasic_iff.2 hbasis, hb, h⟩

/-! ## The next breakpoint -/

/-- Exact positions can always be compared, so the next breakpoint is determined. -/
theorem nextBreakpoint_ne_undetermined (htol : 0 ≤ tol) :
    t.nextBreakpoint tol ≠ .undetermined :=
  Selection.argmax_ne_undetermined htol

/-- The next breakpoint is one of the candidates. -/
theorem mem_of_nextBreakpoint (h : t.nextBreakpoint tol = .chosen b) :
    b ∈ t.rowCrossings tol ++ t.columnCrossings tol :=
  (Selection.mem_of_argmax h).1

/-- Without tolerance the next breakpoint is the largest crossing. -/
theorem Valid.nextBreakpoint_zero (ht : t.Valid p) (h : t.nextBreakpoint 0 = .chosen b) :
    (t.crossed b.crossing).fallsToZero? 0 = some b.lam ∧
      ∀ c lam, (t.crossed c).fallsToZero? 0 = some lam → lam ≤ b.lam := by
  constructor
  -- The breakpoint is listed with the lines that are steep enough, without tolerance all that fall.
  · rcases List.mem_append.1 (mem_of_nextBreakpoint h) with hmem | hmem
    · obtain ⟨row, hrow, hlam⟩ := mem_rowCrossings_iff.1 hmem
      rw [Scalar.tolerance_zero] at hlam
      rw [hrow]
      exact hlam
    · obtain ⟨column, -, hcolumn, hlam⟩ := mem_columnCrossings_iff.1 hmem
      rw [Scalar.tolerance_zero] at hlam
      rw [hcolumn]
      exact hlam
  · intro c lam hc
    exact Selection.le_of_argmax_zero h (ht.mem_crossings (b := ⟨lam, c⟩) hc)

/-- Where there is no next breakpoint nothing falls to zero. -/
theorem Valid.fallsToZero?_of_empty (ht : t.Valid p) (h : t.nextBreakpoint 0 = .empty)
    (c : Crossing m n) : (t.crossed c).fallsToZero? 0 = none := by
  -- A crossing would be a candidate, but there are none.
  have hnil := Selection.argmax_eq_empty_iff.1 h
  cases hc : (t.crossed c).fallsToZero? 0 with
  | none => rfl
  | some lam =>
    have hmem := ht.mem_crossings (b := ⟨lam, c⟩) hc
    rw [hnil] at hmem
    exact absurd hmem List.not_mem_nil

/-! ## Segments -/

/-- Optimal at a bound or, where there is no bound, for arbitrarily large `lam`. -/
def OptimalTowards (t : Tableau ℚ m n) : Option ℚ → Prop
  | some top => t.OptimalAt top
  | none => ∀ lam, ∃ top, lam ≤ top ∧ t.OptimalAt top

/-- A basis that is optimal at some `top` stays so down to its largest crossing. -/
theorem OptimalAt.of_le (h : t.OptimalAt top) (hle : lam ≤ top)
    (hcross : ∀ c x, (t.crossed c).fallsToZero? 0 = some x → x ≤ lam) : t.OptimalAt lam :=
  optimalAt_iff_crossed.2 fun c =>
    Affine.value_nonneg_of_le (optimalAt_iff_crossed.1 h c) hle (hcross c)

/-- A basis that is optimal at a bound, or far up, stays so down to its largest crossing. -/
theorem OptimalTowards.optimalAt (h : t.OptimalTowards bound) (hle : ∀ top ∈ bound, lam ≤ top)
    (hcross : ∀ c x, (t.crossed c).fallsToZero? 0 = some x → x ≤ lam) : t.OptimalAt lam := by
  -- Without a bound the basis is optimal somewhere above, which is as good.
  cases bound with
  | some top => exact OptimalAt.of_le h (hle top rfl) hcross
  | none =>
    obtain ⟨top, htop, hopt⟩ := h lam
    exact hopt.of_le htop hcross

/-- Nothing falls to zero above a bound at which the basis is optimal. -/
theorem OptimalTowards.le_bound (h : t.OptimalTowards bound) {c : Crossing m n} {x : ℚ}
    (hc : (t.crossed c).fallsToZero? 0 = some x) : ∀ top ∈ bound, x ≤ top := by
  rintro top rfl
  exact Affine.le_of_fallsToZero? le_rfl hc (optimalAt_iff_crossed.1 h c)

/-- Below a crossing a basis is not optimal. -/
theorem not_optimalAt_of_lt {c : Crossing m n} {x : ℚ}
    (hc : (t.crossed c).fallsToZero? 0 = some x) (hlt : lam < x) : ¬ t.OptimalAt lam := by
  intro h
  exact absurd (Affine.value_neg_of_lt le_rfl hc hlt) (not_lt.2 (optimalAt_iff_crossed.1 h c))

/-! ## The start -/

/-- No basic value is blamed exactly where all are nonnegative at infinity. -/
theorem primalStartFault?_eq_none_iff {t : Tableau ℚ m n} : t.primalStartFault? tol = none ↔
    ∀ i : Fin m, (t.values.get i).nonnegAtInfinity (Scalar.tolerance tol t.values.constant)
      (Scalar.tolerance tol t.values.slope) = true := by
  unfold primalStartFault?
  simp [List.find?_eq_none]

/-- No reduced cost is blamed exactly where those off the basis are nonnegative at infinity. -/
theorem dualStartFault?_eq_none_iff {t : Tableau ℚ m n} : t.dualStartFault? tol = none ↔
    ∀ j : Fin n, (t.reducedCosts.get j).nonnegAtInfinity
        (Scalar.tolerance tol t.reducedCosts.constant) (Scalar.tolerance tol t.reducedCosts.slope) =
      true ∨ t.isBasic[j] = true := by
  unfold dualStartFault?
  simp only [List.find?_eq_none, List.mem_finRange, forall_const, getElem_fin,
    AffineVector.getElem_nonnegAtInfinity, Fin.eta, Bool.not_eq_true, Bool.not_eq_false',
    Bool.or_eq_true]

/-- A start has a fault in a basic value or in a reduced cost. -/
theorem startFault?_eq_none_iff {t : Tableau ℚ m n} : t.startFault? tol = none ↔
    t.primalStartFault? tol = none ∧ t.dualStartFault? tol = none := by
  unfold startFault?
  cases t.primalStartFault? tol with
  | none => simp
  | some i => simp

/-- A start has no fault exactly where it is optimal for all large `lam`. -/
theorem Valid.startFault?_zero_eq_none_iff (ht : t.Valid p) :
    t.startFault? 0 = none ↔ ∃ low, ∀ lam, low ≤ lam → t.OptimalAt lam := by
  have hvalues (i : Fin m) : (t.values.get i).nonnegAtInfinity 0 0 = true ↔
      ∀ᶠ lam in atTop, 0 ≤ (t.values.get i).value lam := by
    rw [Affine.nonnegAtInfinity_zero_iff_exists, eventually_atTop]
  have hreduced (j : Fin n) : (t.reducedCosts.get j).nonnegAtInfinity 0 0 = true ∨
      t.isBasic[j] = true ↔ ∀ᶠ lam in atTop, 0 ≤ (t.reducedCosts.get j).value lam := by
    rw [Affine.nonnegAtInfinity_zero_iff_exists, ← eventually_atTop]
    -- The mask lets pass what has no reduced cost.
    refine ⟨fun h => h.elim id fun hj => ?_, .inl⟩
    have hmem : j ∈ t.basis := mem_iff_exists_entries.2 ((ht.isBasic_iff j).1 hj)
    exact .of_forall fun lam => (ht.value_reducedCosts_basis lam hmem).ge
  -- Finitely many functions are nonnegative together from some point on.
  rw [startFault?_eq_none_iff, primalStartFault?_eq_none_iff, dualStartFault?_eq_none_iff]
  simp only [Scalar.tolerance_zero, hvalues, hreduced]
  rw [← eventually_all, ← eventually_all, ← eventually_and, eventually_atTop]
  rfl

/-- So it is optimal for arbitrarily large `lam`. -/
theorem optimalTowards_of_startFault? (ht : t.Valid p) (h : t.startFault? 0 = none) :
    t.OptimalTowards none := by
  obtain ⟨low, hlow⟩ := ht.startFault?_zero_eq_none_iff.1 h
  intro lam
  exact ⟨max lam low, le_max_left _ _, hlow _ (le_max_right _ _)⟩

end Tableau

end ParametricLP
