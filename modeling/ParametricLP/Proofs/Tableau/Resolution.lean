import Mathlib
import ParametricLP.Proofs.Tableau.RatioTest

/-!
# Small tolerances decide as none does

A tableau takes finitely many decisions: whether the start is accepted, which breakpoint comes next,
whether it lies above the threshold, and what is exchanged there. Each compares finitely many numbers
that do not depend on the tolerance, so a small tolerance decides as a tolerance of zero. A problem
has finitely many bases, and a valid tableau is determined by its basis: one bound on the tolerance
serves them all.

## Key results

- `eventually_resolves`: a small tolerance resolves the decisions of a tableau
- `Instance.eventually_resolvedBy`: and those of all valid tableaus of a problem together
-/

namespace ParametricLP

open Filter Topology

variable {m n : ℕ}

namespace Tableau

variable {p : Instance ℚ m n}

/-- The tolerance decides at this tableau as a tolerance of zero would. Exchanges are decided at the
    next breakpoint only. -/
structure Resolves (p : Instance ℚ m n) (threshold tol : ℚ) (t : Tableau ℚ m n) : Prop where
  startFault?_eq : t.startFault? tol = t.startFault? 0
  nextBreakpoint_eq : t.nextBreakpoint tol = t.nextBreakpoint 0
  entering_eq : ∀ b, t.nextBreakpoint 0 = .chosen b → ∀ row,
    t.entering p tol b.lam row = t.entering p 0 b.lam row
  leaving_eq : ∀ b, t.nextBreakpoint 0 = .chosen b → ∀ column,
    t.leaving p tol b.lam column = t.leaving p 0 b.lam column
  le_threshold : ∀ b, t.nextBreakpoint 0 = .chosen b →
    b.lam ≤ threshold + tol * Scalar.atLeastOne threshold → b.lam ≤ threshold

/-! ## Single comparisons -/

/-- A small tolerance finds the same zero of a line as none does. -/
private theorem eventually_fallsToZero?_eq (e : Affine ℚ) {k : ℕ} (v : Vector ℚ k) :
    ∀ᶠ tol in 𝓝[>] 0, e.fallsToZero? (Scalar.tolerance tol v) =
      e.fallsToZero? (Scalar.tolerance 0 v) := by
  filter_upwards [eventually_tolerance_lt_iff v e.slope] with tol htol
  unfold Affine.fallsToZero?
  simp only [htol]

/-- A small tolerance judges a line at infinity as none does. -/
private theorem eventually_nonnegAtInfinity_eq (e : Affine ℚ) {k l : ℕ} (v : Vector ℚ k)
    (w : Vector ℚ l) : ∀ᶠ tol in 𝓝[>] 0,
      e.nonnegAtInfinity (Scalar.tolerance tol v) (Scalar.tolerance tol w) =
        e.nonnegAtInfinity (Scalar.tolerance 0 v) (Scalar.tolerance 0 w) := by
  filter_upwards [eventually_tolerance_lt_iff w e.slope,
    eventually_tolerance_lt_iff w (Scalar.abs e.slope),
    eventually_tolerance_lt_iff v (-e.constant)] with tol hslope habs hconst
  -- A slope that counts as zero is one that does not count as positive or negative.
  have hflat : Scalar.abs e.slope ≤ Scalar.tolerance tol w ↔
      Scalar.abs e.slope ≤ Scalar.tolerance 0 w := by
    rw [← not_lt, ← not_lt, habs]
  have hnonneg : -Scalar.tolerance tol v ≤ e.constant ↔ -Scalar.tolerance 0 v ≤ e.constant := by
    rw [← not_lt, ← not_lt]
    exact not_congr (lt_neg.trans (hconst.trans lt_neg))
  unfold Affine.nonnegAtInfinity
  simp only [hslope, hflat, hnonneg]

/-! ## The decisions of a tableau -/

/-- A small tolerance accepts or refuses a tableau as none does. -/
private theorem eventually_startFault?_eq (t : Tableau ℚ m n) :
    ∀ᶠ tol in 𝓝[>] 0, t.startFault? tol = t.startFault? 0 := by
  have hvalues := eventually_all.2 fun i : Fin m =>
    eventually_nonnegAtInfinity_eq (t.values.get i) t.values.constant t.values.slope
  have hreduced := eventually_all.2 fun j : Fin n =>
    eventually_nonnegAtInfinity_eq (t.reducedCosts.get j) t.reducedCosts.constant
      t.reducedCosts.slope
  filter_upwards [hvalues, hreduced] with tol h1 h2
  simp only [startFault?, primalStartFault?, dualStartFault?, getElem_fin,
    AffineVector.getElem_nonnegAtInfinity, Fin.eta, h1, h2]

/-- A small tolerance lists the same candidates for the next breakpoint. -/
private theorem eventually_crossings_eq (t : Tableau ℚ m n) : ∀ᶠ tol in 𝓝[>] 0,
    t.rowCrossings tol ++ t.columnCrossings tol = t.rowCrossings 0 ++ t.columnCrossings 0 := by
  have hvalues := eventually_all.2 fun i : Fin m =>
    eventually_fallsToZero?_eq (t.values.get i) t.values.slope
  have hreduced := eventually_all.2 fun j : Fin n =>
    eventually_fallsToZero?_eq (t.reducedCosts.get j) t.reducedCosts.slope
  filter_upwards [hvalues, hreduced] with tol h1 h2
  simp only [rowCrossings, columnCrossings, h1, h2]

/-- A small tolerance selects the same next breakpoint. -/
private theorem eventually_nextBreakpoint_eq (t : Tableau ℚ m n) :
    ∀ᶠ tol in 𝓝[>] 0, t.nextBreakpoint tol = t.nextBreakpoint 0 := by
  filter_upwards [eventually_crossings_eq t, Selection.eventually_argmax_eq (·.lam)
    (fun b => t.crossingColumn b.crossing) (t.rowCrossings 0 ++ t.columnCrossings 0)]
    with tol hcrossings hargmax
  unfold nextBreakpoint
  rw [hcrossings, hargmax]

/-- A small tolerance lets the same column enter. -/
theorem eventually_entering_eq (t : Tableau ℚ m n) (lam : ℚ) (row : Fin m) :
    ∀ᶠ tol in 𝓝[>] 0, t.entering p tol lam row = t.entering p 0 lam row := by
  have hcandidates : ∀ᶠ tol in 𝓝[>] 0, t.enteringCandidates tol (t.row p row) =
      t.enteringCandidates 0 (t.row p row) := by
    refine eventually_filter_eq _ fun j => ?_
    filter_upwards [eventually_tolerance_lt_iff (t.row p row) (-(t.row p row)[j])] with tol htol
    exact decide_eq_decide.2 (lt_neg.trans (htol.trans lt_neg))
  filter_upwards [hcandidates, Selection.eventually_argmin_eq
    (fun j : Fin n => Scalar.positivePart ((t.reducedCosts.get j).value lam) / -(t.row p row)[j])
    (fun j : Fin n => (t.reducedCosts.get j).slope / -(t.row p row)[j]) id
    (t.enteringCandidates 0 (t.row p row))] with tol h1 h2
  simp only [entering, h1, h2]

/-- A small tolerance leaves the same row. -/
theorem eventually_leaving_eq (t : Tableau ℚ m n) (lam : ℚ) (column : Fin n) :
    ∀ᶠ tol in 𝓝[>] 0, t.leaving p tol lam column = t.leaving p 0 lam column := by
  have hcandidates : ∀ᶠ tol in 𝓝[>] 0, leavingCandidates tol (t.column p column) =
      leavingCandidates 0 (t.column p column) := by
    refine eventually_filter_eq _ fun i => ?_
    filter_upwards [eventually_tolerance_lt_iff (t.column p column) (t.column p column)[i]]
      with tol htol
    exact decide_eq_decide.2 htol
  filter_upwards [hcandidates, Selection.eventually_argmin_eq
    (fun i : Fin m => Scalar.positivePart ((t.values.get i).value lam) / (t.column p column)[i])
    (fun i : Fin m => (t.values.get i).slope / (t.column p column)[i]) (fun i => t.basis[i])
    (leavingCandidates 0 (t.column p column))] with tol h1 h2
  simp only [leaving, h1, h2]

/-- A small tolerance resolves the decisions of a tableau. -/
theorem eventually_resolves (p : Instance ℚ m n) (threshold : ℚ) (t : Tableau ℚ m n) :
    ∀ᶠ tol in 𝓝[>] 0, t.Resolves p threshold tol := by
  cases hb : t.nextBreakpoint 0 with
  | chosen b =>
    have henter := eventually_all.2 fun row => eventually_entering_eq (p := p) t b.lam row
    have hleave := eventually_all.2 fun column => eventually_leaving_eq (p := p) t b.lam column
    have hscale : 0 < Scalar.atLeastOne threshold := one_pos.trans_le (Scalar.one_le_atLeastOne _)
    filter_upwards [eventually_startFault?_eq t, eventually_nextBreakpoint_eq t, henter, hleave,
      eventually_le_add_iff hscale b.lam threshold] with tol hstart hnext henter hleave hfloor
    -- The breakpoint in question is `b`.
    have heq (b' : Breakpoint ℚ m n) (h : t.nextBreakpoint 0 = .chosen b') : b = b' :=
      Choice.chosen.inj (hb.symm.trans h)
    refine ⟨hstart, hnext, fun b' h row => ?_, fun b' h column => ?_, fun b' h => ?_⟩
    · rw [← heq b' h]
      exact henter row
    · rw [← heq b' h]
      exact hleave column
    · rw [← heq b' h]
      exact hfloor.1
  | _ =>
    -- Without a next breakpoint there is nothing to exchange.
    filter_upwards [eventually_startFault?_eq t, eventually_nextBreakpoint_eq t] with tol hstart hnext
    have hnone (b : Breakpoint ℚ m n) : t.nextBreakpoint 0 ≠ .chosen b := by
      rw [hb]
      exact nofun
    exact ⟨hstart, hnext, fun b h => absurd h (hnone b), fun b h => absurd h (hnone b),
      fun b h => absurd h (hnone b)⟩

/-! ## All tableaus of a problem -/

/-- Decisions do not look at the count of corrections. -/
private theorem Resolves.with_updates {threshold tol : ℚ} {t : Tableau ℚ m n}
    (h : t.Resolves p threshold tol) (updates : ℕ) :
    Resolves p threshold tol { t with updates } :=
  ⟨h.startFault?_eq, h.nextBreakpoint_eq, h.entering_eq, h.leaving_eq, h.le_threshold⟩

end Tableau

namespace Instance

/-- The tolerance resolves the decisions of every valid tableau of the problem. -/
def ResolvedBy (p : Instance ℚ m n) (threshold tol : ℚ) : Prop :=
  ∀ t : Tableau ℚ m n, t.Valid p → t.Resolves p threshold tol

/-- A problem has finitely many bases, so one small tolerance resolves all decisions. -/
theorem eventually_resolvedBy (p : Instance ℚ m n) (threshold : ℚ) :
    ∀ᶠ tol in 𝓝[>] 0, p.ResolvedBy threshold tol := by
  -- A basis is a vector of columns, and there are finitely many of those.
  have : Finite (Vector (Fin n) m) := Finite.of_injective entries entries_injective
  have hbasis (basis : Vector (Fin n) m) : ∀ᶠ tol in 𝓝[>] 0, ∀ t : Tableau ℚ m n,
      t.Valid p → t.basis = basis → t.Resolves p threshold tol := by
    -- Either one valid tableau of the basis decides for all, or there is none.
    by_cases hex : ∃ t : Tableau ℚ m n, t.Valid p ∧ t.basis = basis
    · obtain ⟨t₀, ht₀, rfl⟩ := hex
      filter_upwards [t₀.eventually_resolves p threshold] with tol h t ht hb
      rw [ht₀.eq_of_basis_eq ht hb.symm]
      exact h.with_updates t.updates
    · exact Eventually.of_forall fun tol t ht hb => absurd ⟨t, ht, hb⟩ hex
  filter_upwards [eventually_all.2 hbasis] with tol h t ht
  exact h t.basis t ht rfl

end Instance

end ParametricLP
