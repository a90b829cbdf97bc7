import Mathlib
import ParametricLP.Trace.Report
import ParametricLP.Proofs.Run.Valid
import ParametricLP.Proofs.Tableau.Ties

/-!
# Runs of a reordered problem

Each step of a run over the reordered problem is the reordered step of the run over the problem as it
was: the same breakpoint is found, the same columns are exchanged, and an inverse that cannot be
computed afresh for one cannot be for the other. So the order in which constraints and basic columns
are listed shows in the order of multipliers and of the basis only.

## Key results

- `Run.cross_reorder`, `Run.Unrolls.reorder`: single steps and whole runs
- `exists_solve_reorder`: outcomes of a problem and of a reordered one
-/

namespace ParametricLP

variable {m n : ℕ} {p : Instance ℚ m n} (π σ : Equiv.Perm (Fin m))

/-! ## Decisions at a breakpoint -/

namespace Tableau

variable {t : Tableau ℚ m n} {tol : ℚ} {b : Breakpoint ℚ m n}

/-- The reordered tableau exchanges the same columns. -/
theorem Exchanges.reorder {row : Fin m} {entering : Fin n} (h : t.Exchanges p tol b row entering)
    (ht : t.Valid p) : (t.reorder π σ).Exchanges (p.reorder π σ) tol (b.map (.reorder π σ))
      (σ.symm row) entering := by
  cases h with
  | primal hcrossing hchosen =>
    -- The crossing is that of the same column, which stands in another row.
    refine .primal ?_ ?_
    · rw [Breakpoint.crossing_map, hcrossing]
      rfl
    · rw [Breakpoint.lam_map, entering_reorder, hchosen]
  | dual hcrossing hchosen =>
    refine .dual ?_ ?_
    · rw [Breakpoint.crossing_map, hcrossing]
      rfl
    · rw [Breakpoint.lam_map, ht.leaving_reorder, hchosen]
      rfl

/-- The reordered tableau refuses for the same column. -/
theorem Refuses.reorder {verdict : Verdict ℚ n} (h : t.Refuses p tol b verdict)
    (ht : t.Valid p) :
    (t.reorder π σ).Refuses (p.reorder π σ) tol (b.map (.reorder π σ)) verdict := by
  cases h with
  | @infeasible row hcrossing hempty =>
    -- The verdict names the column held in the row, wherever that row stands.
    have hrefuses : (t.reorder π σ).Refuses (p.reorder π σ) tol (b.map (.reorder π σ))
        (.infeasible b.lam (t.reorder π σ).basis[σ.symm row]) := by
      refine .infeasible ?_ ?_
      · rw [Breakpoint.crossing_map, hcrossing]
        rfl
      · rw [Breakpoint.lam_map, entering_reorder, hempty]
    rwa [basis_reorder, getElem_permuted, σ.apply_symm_apply] at hrefuses
  | unbounded hcrossing hempty =>
    refine .unbounded ?_ ?_
    · rw [Breakpoint.crossing_map, hcrossing]
      rfl
    · rw [Breakpoint.lam_map, ht.leaving_reorder, hempty]
      rfl

end Tableau

namespace Run

variable {cfg : Config ℚ} {run run' : Run ℚ m n} {b : Breakpoint ℚ m n} {o : Outcome ℚ m n} {k : ℕ}

/-! ## Single steps -/

/-- A reordered exchange is the exchange reordered, whether it succeeds or fails. -/
theorem exchange_reorder (p : Instance ℚ m n) (cfg : Config ℚ) (run : Run ℚ m n)
    (b : Breakpoint ℚ m n) (row : Fin m) (entering : Fin n) :
    (run.map (.reorder π σ)).exchange (p.reorder π σ) cfg (b.map (.reorder π σ)) (σ.symm row)
        entering = (run.exchange p cfg b row entering).map (.reorder π σ) := by
  have hpivot : (run.map (.reorder π σ)).tableau.pivot (p.reorder π σ) cfg.refactorEvery
      (σ.symm row) entering =
      (run.tableau.pivot p cfg.refactorEvery row entering).map fun t => t.reorder π σ :=
    Tableau.pivot_reorder π σ p run.tableau cfg.refactorEvery row entering
  unfold exchange
  rw [hpivot]
  cases run.tableau.pivot p cfg.refactorEvery row entering with
  | error cause =>
    -- A failed exchange leaves the basis exchanged, and that is what is reordered.
    have hswap : (run.map (.reorder π σ)).tableau.swap (σ.symm row) entering =
        (run.tableau.swap row entering).reorder π σ :=
      Tableau.swap_reorder π σ run.tableau row entering
    dsimp only [Except.map]
    rw [hswap]
    rfl
  | ok t =>
    -- The column that leaves is the same one.
    have hleaving : (run.map (.reorder π σ)).tableau.basis[σ.symm row] =
        run.tableau.basis[row] := by
      show (permuted run.tableau.basis σ)[σ.symm row] = _
      rw [getElem_permuted, σ.apply_symm_apply]
    dsimp only [Except.map]
    rw [hleaving]
    refine congrArg Pivoted.crossed ?_
    unfold map
    rw [Array.map_push]
    rfl

/-- Crossing a breakpoint commutes with the order. -/
theorem cross_reorder {pivoted : Pivoted ℚ m n} (h : run.cross p cfg b = .ok pivoted)
    (hrun : run.tableau.Valid p) :
    (run.map (.reorder π σ)).cross (p.reorder π σ) cfg (b.map (.reorder π σ)) =
      .ok (pivoted.map (.reorder π σ)) := by
  rcases cross_eq_ok h with ⟨verdict, hrefuses, rfl⟩ | ⟨row, entering, hexchanges, rfl⟩
  · exact cross_of_refuses (hrefuses.reorder π σ hrun)
  · rw [← exchange_reorder]
    exact cross_of_exchanges (hexchanges.reorder π σ hrun)

/-- The way to a breakpoint commutes with the order. -/
theorem approach_reorder {progress : Progress ℚ m n} (h : run.approach cfg = .ok progress)
    (hrun : run.tableau.Valid p) :
    (run.map (.reorder π σ)).approach cfg = .ok (progress.map (.reorder π σ)) := by
  have hmap : (run.map (.reorder π σ)).approach cfg =
      (run.approach cfg).map (Progress.map (.reorder π σ)) :=
    approach_map (hrun.nextBreakpoint_reorder π σ cfg.tol_pos.le)
  rw [hmap, h]
  rfl

/-- A pivot that succeeds keeps the tableau in hand valid. -/
theorem valid_of_cross (h : run.cross p cfg b = .ok (.crossed run')) (hrun : run.tableau.Valid p) :
    run'.tableau.Valid p := by
  cases crosses_of_cross h with
  | exchanged hexchanges hpivot =>
    exact Tableau.valid_of_pivot hrun (hexchanges.entry_ne_zero hrun cfg.tol_pos.le) hpivot

/-! ## Whole runs -/

/-- A reordered run makes the reordered steps. -/
theorem Unrolls.reorder (h : Unrolls p cfg k run o) (hrun : run.tableau.Valid p) :
    Unrolls (p.reorder π σ) cfg k (run.map (.reorder π σ)) (o.map (.reorder π σ)) := by
  -- By induction on the run. Its tableau stays valid, as the selections require.
  induction h with
  | stopped happroach =>
    rw [← finish_map]
    exact .stopped (approach_reorder π σ happroach hrun)
  | exhausted happroach =>
    rw [← finish_map]
    exact .exhausted (approach_reorder π σ happroach hrun)
  | halted happroach hcross =>
    have hreached := (tableau_of_approach happroach).symm ▸ hrun
    rw [← finish_map]
    exact .halted (approach_reorder π σ happroach hrun) (cross_reorder π σ hcross hreached)
  | crossed happroach hcross _ ih =>
    have hreached := (tableau_of_approach happroach).symm ▸ hrun
    exact .crossed (approach_reorder π σ happroach hrun) (cross_reorder π σ hcross hreached)
      (ih (valid_of_cross hcross hreached))

end Run

namespace Outcome

/-- `o'` is `o` reordered, except that another fault may be named where the start is refused. -/
structure Reorders (π σ : Equiv.Perm (Fin m)) (o o' : Outcome ℚ m n) : Prop where
  status_eq : o'.status = o.status
  path_eq : o'.path = (o.map (.reorder π σ)).path
  exchanges_eq : o'.exchanges = (o.map (.reorder π σ)).exchanges
  basis_eq : o'.basis = permuted o.basis σ

variable {π σ} {o o' : Outcome ℚ m n}

/-- A reordered outcome has all that the other has in the new order. -/
theorem reorders_map (o : Outcome ℚ m n) : o.Reorders π σ (o.map (.reorder π σ)) :=
  ⟨rfl, rfl, rfl, rfl⟩

/-- The recorded `lam` are the same. -/
theorem Reorders.lams_eq (h : o.Reorders π σ o') : o'.lams = o.lams := by
  unfold lams
  rw [h.path_eq]
  exact List.map_map

/-- The multipliers are those of the problem in the order of the constraints. -/
theorem Reorders.dual_eq (h : o.Reorders π σ o') :
    o'.dual = o.dual.map fun y => permuted y π := by
  unfold dual
  rw [h.path_eq, List.map_map]
  refine List.map_map.trans (List.map_congr_left fun mark _ => ?_)
  exact Tableau.dual_reorder π σ mark.held mark.lam

/-- The solutions are the same, because variables keep their numbers. -/
theorem Reorders.primal_eq (h : o.Reorders π σ o') (hpath : ValidPath p o.path) :
    o'.primal = o.primal := by
  unfold primal
  rw [h.path_eq]
  refine List.map_map.trans (List.map_congr_left fun mark hmark => ?_)
  exact (hpath.valid mark hmark).primal_reorder π σ mark.lam

end Outcome

/-- The reordered problem has the reordered outcome. -/
theorem exists_reorders_of_solve {cfg : Config ℚ} {o : Outcome ℚ m n}
    (h : solve p cfg = .ok o) : ∃ o', solve (p.reorder π σ) cfg = .ok o' ∧ o.Reorders π σ o' := by
  unfold solve at h ⊢
  rw [Tableau.start_reorder]
  -- Starts are singular, refused or accepted together.
  cases hstart : Tableau.start p with
  | error cause =>
    rw [hstart] at h
    obtain rfl := Except.ok.inj h
    exact ⟨_, rfl, rfl, rfl, rfl, rfl⟩
  | ok t =>
    rw [hstart] at h
    dsimp only [Except.map] at h ⊢
    have hrun : (Run.start cfg t).map (.reorder π σ) = Run.start cfg (t.reorder π σ) :=
      Run.start_map _ cfg t
    have hfault := t.startFault?_reorder_eq_none_iff π σ cfg.tol
    cases hold : t.startFault? cfg.tol with
    | some verdict =>
      -- The reordered start is refused as well, perhaps for another column.
      have hsome : (t.reorder π σ).startFault? cfg.tol ≠ none := by
        rw [ne_eq, hfault, hold]
        exact Option.some_ne_none verdict
      obtain ⟨verdict', hnew⟩ := Option.ne_none_iff_exists'.1 hsome
      rw [hold] at h
      obtain rfl := Except.ok.inj h
      rw [hnew, ← hrun]
      refine ⟨_, rfl, ?_, ?_, ?_, rfl⟩
      · exact (Tableau.status_of_startFault? hnew).trans (Tableau.status_of_startFault? hold).symm
      · rw [Run.finish_map]
        rfl
      · rw [Run.finish_map]
        rfl
    | none =>
      rw [hold] at h
      rw [hfault.2 hold]
      have hunrolls := (Run.unrolls_of_trace h).reorder π σ (Tableau.valid_of_start hstart).1
      rw [hrun] at hunrolls
      exact ⟨_, hunrolls.trace_eq, o.reorders_map⟩

/-- Listing the constraints in the order `π` and the starting basis in the order `σ` changes neither
    why a run stops nor what it exchanges at which `lam`: ties are resolved by columns. Its path has
    the same solutions, the multipliers in the order `π` and the last basis in the order `σ`. -/
theorem exists_solve_reorder (p : Instance ℚ m n) (cfg : Config ℚ) (π σ : Equiv.Perm (Fin m)) :
    ∃ o o', solve p cfg = .ok o ∧ solve (p.reorder π σ) cfg = .ok o' ∧
      o'.status = o.status ∧ o'.pivots = o.pivots ∧ o'.lams = o.lams ∧ o'.primal = o.primal ∧
      o'.dual = o.dual.map (fun y => permuted y π) ∧ o'.basis = permuted o.basis σ ∧
      o'.exchanges.map (fun e => (e.lam, e.entering, e.leaving)) =
        o.exchanges.map fun e => (e.lam, e.entering, e.leaving) := by
  obtain ⟨o, h, hsolves⟩ := exists_solves p cfg
  obtain ⟨o', h', hreorders⟩ := exists_reorders_of_solve π σ h
  refine ⟨o, o', h, h', hreorders.status_eq, ?_, hreorders.lams_eq,
    hreorders.primal_eq hsolves.validPath, hreorders.dual_eq, hreorders.basis_eq, ?_⟩
  · unfold Outcome.pivots
    rw [hreorders.exchanges_eq]
    exact List.length_map _
  · rw [hreorders.exchanges_eq]
    exact List.map_map

end ParametricLP
