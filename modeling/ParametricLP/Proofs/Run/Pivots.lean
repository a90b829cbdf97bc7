import Mathlib
import ParametricLP.Proofs.Run.Orderly
import ParametricLP.Proofs.Run.Valid
import ParametricLP.Proofs.Tableau.Reachable

/-!
# What a completed pivot keeps

At a crossing that was not clipped something is exactly zero, whatever the tolerance is: the step
that the pivot takes has length zero there. Where a basic value crosses, the solution stays as it
is, and where a reduced cost does, the multipliers do. Solution and multipliers of a tableau have
the same objective, so either way that does not change.

## Key results

- `Instance.Passes.reachable`: the tableaus of a run are reached by pivots
- `Instance.Pivots.primal_eq`, `Instance.Pivots.dual_eq`: what stays as it is
- `Instance.Pivots.objective_eq`: the objective stays in both cases
-/

namespace ParametricLP

variable {m n : ℕ}

/-- A run completes a pivot at `lam`, from the tableau `t` to `t'`, where its search found the
    crossing `found`. The crossing was clipped where `found` lies elsewhere. -/
inductive Instance.Pivots {α : Type} [Scalar α] (p : Instance α m n) (cfg : Config α)
    (found : Breakpoint α m n) : (lam : α) → (t t' : Tableau α m n) → Prop where
  | intro {k run b run' run''} (hpass : p.Passes cfg (k + 1) run)
      (hfound : run.tableau.nextBreakpoint cfg.tol = .chosen found)
      (happroach : run.approach cfg = .ok (.reached b run'))
      (hcross : run'.cross p cfg b = .ok (.crossed run'')) :
      Pivots p cfg found b.lam run.tableau run''.tableau

/-- A breakpoint that a run reaches is the one its search found, clipped to its bound. -/
theorem Run.Approaches.exists_clip {α : Type} [Scalar α] {cfg : Config α} {run run' : Run α m n}
    {b : Breakpoint α m n} (h : Approaches cfg run (.reached b run')) :
    ∃ found, run.tableau.nextBreakpoint cfg.tol = .chosen found ∧ b = found.clip run.bound := by
  cases h with
  | moved hnext => exact ⟨_, hnext, rfl⟩
  | stalled hnext => exact ⟨_, hnext, rfl⟩

/-- No crossing of a pivot that a run completes at `lam` was clipped. -/
def Instance.Unclipped (p : Instance ℚ m n) (cfg : Config ℚ) (lam : ℚ) : Prop :=
  ∀ found t t', p.Pivots cfg found lam t t' → found.lam = lam

namespace Instance

variable {p : Instance ℚ m n} {cfg : Config ℚ} {k : ℕ} {run run' run'' : Run ℚ m n}
  {found b : Breakpoint ℚ m n} {lam : ℚ} {t t' : Tableau ℚ m n} {row : Fin m} {column : Fin n}

/-! ## The states of a run -/

/-- The way of a run to its next breakpoint is one of the five ways. -/
theorem Passes.approaches (h : p.Passes cfg k run) {progress : Progress ℚ m n}
    (happroach : run.approach cfg = .ok progress) : Run.Approaches cfg run progress := by
  obtain ⟨left, hkept⟩ := h.kept
  exact hkept.approaches happroach

/-- Between two breakpoints the bound of a run is its last mark, and another one can be taken. -/
theorem Passes.recorder_open (h : p.Passes cfg k run) :
    run.recorder.Open cfg.threshold run.bound := by
  induction h with
  | start => exact Run.open_start _
  | crossed hpass happroach hcross ih =>
    have hopen := (hpass.approaches happroach).recorder_open ih
    exact (Run.crosses_of_cross hcross).recorder_open hopen

/-- The tableaus of a run are reached by pivots. -/
theorem Passes.reachable (h : p.Passes cfg k run) : run.tableau.Reachable p cfg.refactorEvery := by
  induction h with
  | start hstart => exact .start hstart
  | @crossed k run b run' run'' _ happroach hcross ih =>
    have htableau : run'.tableau = run.tableau := Run.tableau_of_approach happroach
    cases Run.crosses_of_cross hcross with
    | exchanged hexchange hpivot =>
      -- The entry that the pivot divides by is not zero, so the inverse can be corrected.
      rw [htableau] at hexchange hpivot
      exact .pivot ih (fun _ => hexchange.entry_ne_zero ih.valid cfg.tol_pos.le) hpivot

/-- Whatever breakpoint a run crosses was found by its search. -/
theorem Passes.exists_pivots (h : p.Passes cfg (k + 1) run)
    (happroach : run.approach cfg = .ok (.reached b run'))
    (hcross : run'.cross p cfg b = .ok (.crossed run'')) :
    ∃ found, p.Pivots cfg found b.lam run.tableau run''.tableau := by
  obtain ⟨found, hfound, -⟩ := (h.approaches happroach).exists_clip
  exact ⟨found, .intro h hfound happroach hcross⟩

/-! ## A completed pivot -/

/-- The first pivot is not clipped, because nothing bounds its crossing. -/
theorem unclipped_of_maxPivots_le_one (p : Instance ℚ m n) (hmax : cfg.maxPivots ≤ 1) (lam : ℚ) :
    p.Unclipped cfg lam := by
  rintro found t t' ⟨hpass, hfound, happroach, -⟩
  obtain ⟨found', hfound', rfl⟩ := (hpass.approaches happroach).exists_clip
  obtain rfl := Choice.chosen.inj (hfound.symm.trans hfound')
  -- After a first pivot none would be left.
  generalize hk : _ + 1 = k at hpass
  cases hpass with
  | start => rfl
  | crossed hpass =>
    obtain ⟨left, hkept⟩ := hpass.kept
    have hpivots := hkept.pivots_eq
    omega

namespace Pivots

/-- A pivot is completed on a valid tableau. -/
theorem valid (h : p.Pivots cfg found lam t t') : t.Valid p := by
  cases h with
  | intro hpass => exact hpass.reachable.valid

/-- The exchange is the one decided on at `lam` for the crossing that was found. -/
theorem exists_exchange (h : p.Pivots cfg found lam t t') : ∃ row entering,
    t.Exchanges p cfg.tol ⟨lam, found.crossing⟩ row entering ∧
      t.pivot p cfg.refactorEvery row entering = .ok t' := by
  cases h with
  | @intro k run b run' run'' hpass hfound happroach hcross =>
    have htableau : run'.tableau = run.tableau := Run.tableau_of_approach happroach
    -- The search has one answer, of which the breakpoint crossed is the clipped one.
    obtain ⟨found', hfound', hclip⟩ := (hpass.approaches happroach).exists_clip
    obtain rfl := Choice.chosen.inj (hfound.symm.trans hfound')
    have hcrossing : b.crossing = found.crossing := by rw [hclip, Breakpoint.crossing_clip]
    cases Run.crosses_of_cross hcross with
    | exchanged hexchange hpivot =>
      rw [htableau] at hexchange hpivot
      rw [← hcrossing]
      exact ⟨_, _, hexchange, hpivot⟩

/-- Something is zero at a crossing that was not clipped. -/
theorem value_eq_zero (h : p.Pivots cfg found lam t t') (hlam : found.lam = lam) :
    (t.crossed found.crossing).value lam = 0 := by
  cases h with
  | intro hpass hfound =>
    obtain ⟨⟨slopeTol, hslopeTol, hfalls⟩, -⟩ :=
      Tableau.crossed_of_mem cfg.tol_pos.le (Tableau.mem_of_nextBreakpoint hfound)
    rw [← hlam]
    exact Affine.value_of_fallsToZero? hslopeTol hfalls

/-- Where a basic value crosses, the solution stays as it is. -/
theorem primal_eq (h : p.Pivots cfg found lam t t') (hlam : found.lam = lam)
    (hrow : found.crossing = .primal row) : t'.primal lam = t.primal lam := by
  have hzero := h.value_eq_zero hlam
  obtain ⟨row', entering, hexchange, hpivot⟩ := h.exists_exchange
  rw [hrow] at hzero hexchange
  cases hexchange with
  | primal hcrossing hchosen =>
    -- The value of the row that is left is zero, so the step to the new solution has length zero.
    cases hcrossing
    obtain ⟨henter, hneg⟩ := h.valid.entering_spec cfg.tol_pos.le hchosen
    exact h.valid.primal_pivot_of_crossing henter hneg.ne hpivot hzero
  | dual hcrossing => exact nomatch hcrossing

/-- Where a reduced cost crosses, the multipliers stay as they are. -/
theorem dual_eq (h : p.Pivots cfg found lam t t') (hlam : found.lam = lam)
    (hcolumn : found.crossing = .dual column) : t'.dual lam = t.dual lam := by
  have hzero := h.value_eq_zero hlam
  obtain ⟨row, entering, hexchange, hpivot⟩ := h.exists_exchange
  rw [hcolumn] at hzero hexchange
  cases hexchange with
  | primal hcrossing => exact nomatch hcrossing
  | dual hcrossing hchosen =>
    -- The reduced cost of the column that enters is zero, so no multiplier moves.
    cases hcrossing
    have hentry := (Tableau.leaving_spec cfg.tol_pos.le hchosen).ne'
    exact h.valid.dual_pivot_of_crossing hentry hpivot hzero

/-- A completed pivot leads to a valid tableau. -/
theorem valid_right (h : p.Pivots cfg found lam t t') : t'.Valid p := by
  obtain ⟨row, entering, hexchange, hpivot⟩ := h.exists_exchange
  exact Tableau.valid_of_pivot h.valid (hexchange.entry_ne_zero h.valid cfg.tol_pos.le) hpivot

/-- The objective stays as it is in both cases. -/
theorem objective_eq (h : p.Pivots cfg found lam t t') (hlam : found.lam = lam) :
    p.objective lam (t'.primal lam) = p.objective lam (t.primal lam) := by
  cases hcrossing : found.crossing with
  | primal row => rw [h.primal_eq hlam hcrossing]
  | dual column =>
    -- Both solutions cost what the multipliers are worth.
    rw [h.valid_right.objective_eq, h.valid.objective_eq, h.dual_eq hlam hcrossing]

end Pivots

end Instance

/-! ## The pivots of an outcome -/

/-- An outcome is that of a refused start, without marks and pivots, or that of a run. -/
theorem unrolls_of_solve {p : Instance ℚ m n} {cfg : Config ℚ} {o : Outcome ℚ m n}
    (h : solve p cfg = .ok o) : (o.path = [] ∧ o.exchanges = []) ∨ ∃ t,
      p.Passes cfg cfg.maxPivots (Run.start cfg t) ∧
        Run.Unrolls p cfg cfg.maxPivots (Run.start cfg t) o := by
  unfold solve at h
  cases hstart : Tableau.start p with
  | error cause =>
    rw [hstart] at h
    obtain rfl := Except.ok.inj h
    exact .inl ⟨rfl, rfl⟩
  | ok t =>
    rw [hstart] at h
    dsimp only at h
    cases hfault : t.startFault? cfg.tol with
    | some verdict =>
      rw [hfault] at h
      obtain rfl := Except.ok.inj h
      exact .inl ⟨rfl, rfl⟩
    | none =>
      rw [hfault] at h
      exact .inr ⟨t, .start hstart hfault, Run.unrolls_of_trace h⟩

namespace Run

variable {p : Instance ℚ m n} {cfg : Config ℚ} {k : ℕ} {run : Run ℚ m n} {o : Outcome ℚ m n}

/-- No exchange is made on the way to a breakpoint. -/
theorem Approaches.exchanges_eq {progress : Progress ℚ m n} (h : Approaches cfg run progress) :
    progress.run.exchanges = run.exchanges := by
  cases h with
  | _ => rfl

/-- What a run leaves behind lists the pivots that it had made and those that it completes. -/
theorem Unrolls.exists_pivots (h : Unrolls p cfg k run o) (hpass : p.Passes cfg k run)
    {e : Exchange ℚ m n} (he : e ∈ o.exchanges) : e ∈ run.exchanges.toList ∨
      ∃ found t t', p.Pivots cfg found e.lam t t' ∧ found.crossing = e.crossing := by
  induction h with
  | stopped happroach => exact .inl ((hpass.approaches happroach).exchanges_eq ▸ he)
  | exhausted happroach => exact .inl ((hpass.approaches happroach).exchanges_eq ▸ he)
  -- A run that halts at a breakpoint lists no exchange for it.
  | @halted k run b run' verdict run'' happroach hcross =>
    have hsame : run'.exchanges = run.exchanges := (hpass.approaches happroach).exchanges_eq
    left
    rw [← hsame]
    cases crosses_of_cross hcross with
    | _ => exact he
  | @crossed k run b run' run'' o happroach hcross _ ih =>
    have happroaches := hpass.approaches happroach
    have hsame : run'.exchanges = run.exchanges := happroaches.exchanges_eq
    refine (ih (hpass.crossed happroach hcross) he).elim (fun hmem => ?_) .inr
    obtain ⟨found, hfound, hclip⟩ := happroaches.exists_clip
    have hpivots := Instance.Pivots.intro hpass hfound happroach hcross
    cases crosses_of_cross hcross with
    | exchanged =>
      -- Only the last of the pivots made so far is new.
      rw [Array.toList_push, List.mem_append, List.mem_singleton, hsame] at hmem
      rcases hmem with hmem | rfl
      · exact .inl hmem
      · exact .inr ⟨found, _, _, hpivots, by rw [hclip, Breakpoint.crossing_clip]⟩

end Run

/-- Every pivot that an outcome lists was completed by its run. -/
theorem exists_pivots_of_mem_exchanges {p : Instance ℚ m n} {cfg : Config ℚ} {o : Outcome ℚ m n}
    (h : solve p cfg = .ok o) {e : Exchange ℚ m n} (he : e ∈ o.exchanges) :
    ∃ found t t', p.Pivots cfg found e.lam t t' ∧ found.crossing = e.crossing := by
  rcases unrolls_of_solve h with hnil | ⟨t, hpass, hunrolls⟩
  · -- A start that was refused lists no exchange.
    rw [hnil.2] at he
    exact absurd he List.not_mem_nil
  · exact (hunrolls.exists_pivots hpass he).resolve_left List.not_mem_nil

end ParametricLP
