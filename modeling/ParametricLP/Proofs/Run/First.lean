import Mathlib
import ParametricLP.Proofs.Run.Growth
import ParametricLP.Proofs.Tableau.Start

/-!
# Where a path starts

What falls to zero in a settled tableau has slope one, so a tolerance below one lists all of it. The
first breakpoint is the largest `lam` at which something does, or one that falls short of it by no
more than the tolerance. A run records its starting tableau there if that is clearly above the
threshold, and at the threshold otherwise, before it makes any pivot and whatever its budgets are.

## Key results

- `Selection.bounds_of_argmax`: how far a choice may fall short of the largest value
- `IsSettled.exists_nextBreakpoint`: the first breakpoint of a settled tableau
- `exists_first`: the first entry of a path
- `IsSettled.startsNear`: where the path of a settled start begins
-/

namespace ParametricLP

variable {m n : ℕ} {p : Instance ℚ m n} {t : Tableau ℚ m n} {tol top : ℚ}

/-- The choice is the largest value, or falls short of it by no more than the tolerance. -/
theorem Selection.bounds_of_argmax {ι κ : Type} [LT κ] [DecidableLT κ] {value : ι → ℚ}
    {key : ι → κ} {is : List ι} {i : ι} (h : argmax tol value key is = .chosen i)
    (htop : IsGreatest {x | ∃ j ∈ is, value j = x} top) :
    top - tol * max 1 |top| ≤ value i ∧ value i ≤ top := by
  obtain ⟨⟨k, hk, htopk⟩, hle⟩ := htop
  have hne : is ≠ [] := List.ne_nil_of_mem hk
  -- A list with a largest value is not empty, so the choice is made among near ties of it.
  simp only [argmax, finite_eq_self, List.isEmpty_iff, hne, if_false] at h
  have hi := mem_of_smallestKey (ofTied_eq_chosen_iff.1 h)
  refine ⟨?_, hle ⟨i, mem_of_mem_nextToLargest hi, rfl⟩⟩
  obtain ⟨j, js, rfl⟩ := List.exists_cons_of_ne_nil hne
  -- The candidates are compared with the largest value.
  have htop : js.foldl (fun b j => Scalar.larger b (value j)) (value j) = top := by
    have hlargest : ∀ k ∈ j :: js, value k ≤
        js.foldl (fun b j => Scalar.larger b (value j)) (value j) :=
      List.forall_mem_cons.2 ((Scalar.foldl_larger_le_iff value js _ _).1 le_rfl)
    obtain ⟨l, hl, hbest⟩ := Scalar.exists_eq_foldl_larger value j js
    exact le_antisymm (hbest ▸ hle ⟨l, hl, rfl⟩) (htopk ▸ hlargest k hk)
  have hbound := of_decide_eq_true (List.mem_filter.1 hi).2
  rwa [htop, Scalar.atLeastOne_eq_max, Scalar.abs_eq_abs] at hbound

/-! ## The first breakpoint -/

/-- A tolerance below one lists where settled functions of slope one fall to zero. -/
theorem Affine.IsSettled.fallsToZero?_eq_some_iff {e : Affine ℚ} (h : e.IsSettled) (htol : 0 ≤ tol)
    (hlt : tol < 1) {x : ℚ} : e.fallsToZero? tol = some x ↔ e.slope = 1 ∧ -e.constant = x := by
  rw [Affine.fallsToZero?_eq_some_iff]
  rcases h with hslope | ⟨hslope, -⟩
  · simp only [hslope, hlt, div_one, true_and]
  · simp only [hslope, htol.not_gt, zero_ne_one, false_and]

namespace Tableau

/-- The `lam` at which something of slope one falls to zero. -/
def unitCrossings (t : Tableau ℚ m n) : Set ℚ :=
  {x | ∃ c, (t.crossed c).slope = 1 ∧ -(t.crossed c).constant = x}

/-- In a settled tableau these are the candidates for the first breakpoint. -/
theorem IsSettled.mem_crossings_iff (h : t.IsSettled) (ht : t.Valid p) (htol : 0 ≤ tol)
    (hlt : tol < 1) {b : Breakpoint ℚ m n} : b ∈ t.rowCrossings tol ++ t.columnCrossings tol ↔
      (t.crossed b.crossing).slope = 1 ∧ -(t.crossed b.crossing).constant = b.lam := by
  -- The scale of the tolerance is one, as slopes of settled functions are at most one.
  have hrows := AffineVector.tolerance_slope_of_isSettled h.values tol
  have hcolumns := AffineVector.tolerance_slope_of_isSettled h.reducedCosts tol
  rw [List.mem_append, mem_rowCrossings_iff, mem_columnCrossings_iff, hrows, hcolumns]
  cases hb : b.crossing with
  | primal row =>
    simp only [Crossing.primal.injEq, exists_eq_left', reduceCtorEq, false_and, and_false,
      exists_false, or_false]
    exact (h.values row).fallsToZero?_eq_some_iff htol hlt
  | dual column =>
    simp only [Crossing.dual.injEq, reduceCtorEq, false_and, exists_false, false_or]
    rw [crossed, ← (h.reducedCosts column).fallsToZero?_eq_some_iff htol hlt]
    constructor
    · rintro ⟨_, -, rfl, hfalls⟩
      exact hfalls
    · -- A column with a reduced cost that rises is not in the basis.
      intro hfalls
      have hslope := ((h.reducedCosts column).fallsToZero?_eq_some_iff htol hlt).1 hfalls
      have hmem := ht.notMem_basis_of_slope (hslope.1 ▸ one_pos)
      exact ⟨column, ht.mem_nonbasic_iff.2 hmem, rfl, hfalls⟩

/-- The first breakpoint of a settled tableau is the largest crossing, up to the tolerance. -/
theorem IsSettled.exists_nextBreakpoint (h : t.IsSettled) (ht : t.Valid p) (htol : 0 ≤ tol)
    (hlt : tol < 1) (htop : IsGreatest t.unitCrossings top) :
    ∃ b, t.nextBreakpoint tol = .chosen b ∧ top - tol * max 1 |top| ≤ b.lam ∧ b.lam ≤ top := by
  have hcrossings : {x | ∃ b ∈ t.rowCrossings tol ++ t.columnCrossings tol, b.lam = x} =
      t.unitCrossings := by
    ext x
    constructor
    · rintro ⟨b, hb, rfl⟩
      exact ⟨b.crossing, (h.mem_crossings_iff ht htol hlt).1 hb⟩
    · rintro ⟨c, hc⟩
      exact ⟨⟨x, c⟩, (h.mem_crossings_iff ht htol hlt).2 hc, rfl⟩
  rw [← hcrossings] at htop
  cases hnext : t.nextBreakpoint tol with
  | empty =>
    -- The list is not empty because the largest crossing is in it.
    have hnil := Selection.argmax_eq_empty_iff.1 hnext
    obtain ⟨b, hb, -⟩ := htop.1
    rw [hnil] at hb
    exact absurd hb List.not_mem_nil
  | undetermined => exact absurd hnext (nextBreakpoint_ne_undetermined htol)
  | chosen b => exact ⟨b, rfl, Selection.bounds_of_argmax hnext htop⟩

end Tableau

/-! ## The first entry -/

variable {cfg : Config ℚ} {o : Outcome ℚ m n}

/-- A path from an accepted start has the starting tableau for its first entry, at the first
    breakpoint if that is above the floor, and otherwise at the threshold. -/
theorem exists_first {b : Breakpoint ℚ m n} (hstart : Tableau.start p = .ok t)
    (hfault : t.startFault? cfg.tol = none) (hnext : t.nextBreakpoint cfg.tol = .chosen b)
    (hsolve : solve p cfg = .ok o) : ∃ lam rest, o.path = ⟨lam, t⟩ :: rest ∧
      (cfg.floor < lam ∧ lam = b.lam ∨ lam = cfg.threshold ∧ b.lam ≤ cfg.floor) := by
  have htrace : (Run.start cfg t).trace p cfg cfg.maxPivots = .ok o := by
    simpa only [solve, hstart, hfault] using hsolve
  -- The first step of the run is its approach to the first breakpoint.
  obtain ⟨progress, happroach, hleads⟩ := (Run.unrolls_of_trace htrace).exists_approach
  have haccepts : (Run.start cfg t).Accepts cfg := Run.accepts_of_open (Run.open_start t)
  obtain ⟨_, happroach', happroaches⟩ := Run.exists_approaches haccepts
    (Tableau.nextBreakpoint_ne_undetermined cfg.tol_pos.le)
  obtain rfl := Except.ok.inj (happroach'.symm.trans happroach)
  -- The mark taken on the way to the first breakpoint stands first from then on.
  have hmark {lam : ℚ} {recorder : Recorder ℚ (Tableau ℚ m n)}
      (happend : (Run.start cfg t).recorder.append lam t = .ok (some recorder))
      (hpath : recorder.marks.toList <+: o.path) : ∃ rest, o.path = ⟨lam, t⟩ :: rest := by
    obtain ⟨rest, hrest⟩ := hpath
    rw [(Recorder.append_eq_ok_some happend).1] at hrest
    exact ⟨rest, hrest.symm⟩
  cases happroaches with
  | ended hended happend =>
    obtain ⟨rest, hrest⟩ := hmark happend hleads.path
    exact ⟨_, rest, hrest, .inr ⟨rfl, hended b hnext⟩⟩
  | full hnext' hfloor happend =>
    obtain rfl := Choice.chosen.inj (hnext.symm.trans hnext')
    obtain ⟨rest, hrest⟩ := hmark happend hleads.path
    exact ⟨_, rest, hrest, .inl ⟨not_le.1 hfloor, rfl⟩⟩
  | moved hnext' hfloor happend =>
    obtain rfl := Choice.chosen.inj (hnext.symm.trans hnext')
    obtain ⟨rest, hrest⟩ := hmark happend hleads.path
    exact ⟨_, rest, hrest, .inl ⟨not_le.1 hfloor, rfl⟩⟩
  -- A run without a mark cannot stall.
  | cycling _ _ hstall => exact nomatch (isBelow_none _).symm.trans hstall
  | stalled _ _ hstall => exact nomatch (isBelow_none _).symm.trans hstall

/-- A path that should start at `top` does so up to the tolerance, or at the threshold where `top`
    is not clearly above it. -/
def Config.StartsNear (cfg : Config ℚ) (top lam : ℚ) : Prop :=
  cfg.threshold + cfg.tol * max 1 cfg.threshold < lam ∧
      top - cfg.tol * max 1 top ≤ lam ∧ lam ≤ top ∨
    lam = cfg.threshold ∧
      top ≤ cfg.threshold + cfg.tol * max 1 cfg.threshold + cfg.tol * max 1 top

/-- A path from a settled start has its first entry at the largest crossing, up to the tolerance. -/
theorem Tableau.IsSettled.startsNear (h : t.IsSettled) (hstart : start p = .ok t)
    (hlt : cfg.tol < 1) (htop : IsGreatest t.unitCrossings top) (hnonneg : 0 ≤ top)
    (hsolve : solve p cfg = .ok o) :
    ∃ lam rest, o.path = ⟨lam, t⟩ :: rest ∧ cfg.StartsNear top lam := by
  have htol := cfg.tol_pos.le
  obtain ⟨b, hnext, hlower, hupper⟩ :=
    h.exists_nextBreakpoint (valid_of_start hstart).1 htol hlt htop
  rw [abs_of_nonneg hnonneg] at hlower
  obtain ⟨lam, rest, hpath, hfirst⟩ :=
    exists_first hstart (h.startFault?_eq_none htol) hnext hsolve
  refine ⟨lam, rest, hpath, ?_⟩
  -- The floor is the threshold with a margin above it.
  have hfloor : cfg.floor = cfg.threshold + cfg.tol * max 1 cfg.threshold := by
    rw [Config.floor, Scalar.atLeastOne_eq_max]
  rw [hfloor] at hfirst
  rcases hfirst with ⟨habove, rfl⟩ | ⟨hlam, hbelow⟩
  · exact .inl ⟨habove, hlower, hupper⟩
  · exact .inr ⟨hlam, by linarith⟩

end ParametricLP
