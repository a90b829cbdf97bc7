import Mathlib
import ParametricLP.Trace.Report
import ParametricLP.Proofs.Run.Map
import ParametricLP.Proofs.Run.Valid

/-!
# How often the inverse is computed afresh

A corrected inverse and one computed afresh are the same matrix, so a tableau shows only by its count
of corrections which of the two it holds. Runs that compute the inverse afresh at different moments
therefore make the same moves, until one of them meets a basis whose inverse it does not trust while
the other corrects its own and goes on.

## Key results

- `Run.Alike.approach_reached`, `Run.Alike.cross`: both runs make the same move, or one fails
- `Run.Alike.followsOrFails`: whole runs
- `exists_solve_withRefactorEvery`: outcomes of one problem for two numbers of corrections
-/

namespace ParametricLP

variable {m n : ℕ}

/-- The same budgets with the inverse computed afresh after another number of corrections. -/
def Config.withRefactorEvery (cfg : Config ℚ) (every : ℕ+) : Config ℚ :=
  { cfg with refactorEvery := every, refactorEvery_pos := every.pos }

/-- Tableaus without their counts of corrections. -/
def Translation.forget : Translation ℚ m n where
  tableau t := { t with updates := 0 }
  crossing := id
  basis := id
  basis_tableau _ := rfl

open Translation

/-- Crossings do not depend on the count of corrections. -/
theorem Breakpoint.map_forget (b : Breakpoint ℚ m n) : b.map forget = b := rfl

namespace Outcome

/-- Two outcomes are the same up to counts of corrections, or one has failed where the other may have
    gone on. -/
inductive FollowsOrFails (o₁ o₂ : Outcome ℚ m n) : Prop where
  | follows (h : o₁.map forget = o₂.map forget)
  | fails_left (hstatus : o₁.status = .numericalError)
      (hpath : (o₁.map forget).path <+: (o₂.map forget).path)
  | fails_right (hstatus : o₂.status = .numericalError)
      (hpath : (o₂.map forget).path <+: (o₁.map forget).path)

/-- Entries do not show the count of corrections. -/
theorem entries_map_forget (o : Outcome ℚ m n) : (o.map forget).entries = o.entries := by
  unfold entries map
  rw [List.map_map]
  rfl

variable {o₁ o₂ : Outcome ℚ m n}

/-- Which of the two comes first does not matter. -/
theorem FollowsOrFails.symm (h : o₁.FollowsOrFails o₂) : o₂.FollowsOrFails o₁ := by
  cases h with
  | follows h => exact .follows h.symm
  | fails_left hstatus hpath => exact .fails_right hstatus hpath
  | fails_right hstatus hpath => exact .fails_left hstatus hpath

/-- What outcomes that are the same up to counts of corrections have in common. -/
theorem eq_of_map_forget_eq (h : o₁.map forget = o₂.map forget) :
    o₁.verdict = o₂.verdict ∧ o₁.exchanges = o₂.exchanges ∧ o₁.basis = o₂.basis ∧
      o₁.entries = o₂.entries := by
  -- Neither exchanges nor bases mention the count.
  have hexchanges (o : Outcome ℚ m n) : (o.map forget).exchanges = o.exchanges :=
    List.map_id _
  have hverdict : (o₁.map forget).verdict = (o₂.map forget).verdict := by rw [h]
  have hbasis : (o₁.map forget).basis = (o₂.map forget).basis := by rw [h]
  refine ⟨hverdict, ?_, hbasis, ?_⟩
  · rw [← hexchanges o₁, h, hexchanges]
  · rw [← o₁.entries_map_forget, h, entries_map_forget]

/-- Of two such outcomes one has the path of the other, or the beginning of it. -/
theorem FollowsOrFails.entries_prefix (h : o₁.FollowsOrFails o₂) :
    o₁.entries <+: o₂.entries ∨ o₂.entries <+: o₁.entries := by
  rw [← o₁.entries_map_forget, ← o₂.entries_map_forget]
  cases h with
  | follows h =>
    rw [h]
    exact .inl List.prefix_rfl
  | fails_left _ hpath => exact .inl (hpath.map _)
  | fails_right _ hpath => exact .inr (hpath.map _)

end Outcome

namespace Run

/-- Two runs that have made the same moves, with the same tableau up to its count of corrections. -/
structure Alike (p : Instance ℚ m n) (run₁ run₂ : Run ℚ m n) : Prop where
  map_eq : run₁.map forget = run₂.map forget
  valid_left : run₁.tableau.Valid p
  valid_right : run₂.tableau.Valid p

/-- What two such runs come to at a breakpoint: the same, or one of them fails. -/
inductive CrossAlike (p : Instance ℚ m n) : Pivoted ℚ m n → Pivoted ℚ m n → Prop where
  | stopped {verdict run₁ run₂} (h : Alike p run₁ run₂) :
      CrossAlike p (.stopped verdict run₁) (.stopped verdict run₂)
  | crossed {run₁ run₂} (h : Alike p run₁ run₂) :
      CrossAlike p (.crossed run₁) (.crossed run₂)
  | failed_left {cause run₁ pivoted₂} :
      CrossAlike p (.stopped (.refactorFailed cause) run₁) pivoted₂
  | failed_right {cause pivoted₁ run₂} :
      CrossAlike p pivoted₁ (.stopped (.refactorFailed cause) run₂)

variable {p : Instance ℚ m n} {cfg : Config ℚ} {every : ℕ+} {run₁ run₂ run₁' run₂' : Run ℚ m n}
  {b : Breakpoint ℚ m n} {verdict : Verdict ℚ n} {o₁ o₂ : Outcome ℚ m n} {k : ℕ}

/-- The way to a breakpoint does not depend on the count of corrections. -/
theorem approach_map_forget (run : Run ℚ m n) (cfg : Config ℚ) :
    (run.map forget).approach cfg = (run.approach cfg).map (Progress.map forget) := by
  refine approach_map ?_
  -- The search looks at values and reduced costs only.
  show run.tableau.nextBreakpoint cfg.tol = _
  cases run.tableau.nextBreakpoint cfg.tol with
  | _ => rfl

namespace Alike

/-- The tableaus of two such runs differ in the count of corrections only. -/
theorem tableau_eq (h : Alike p run₁ run₂) :
    run₂.tableau = { run₁.tableau with updates := run₂.tableau.updates } :=
  h.valid_left.eq_of_basis_eq h.valid_right (congrArg (fun run => run.tableau.basis) h.map_eq)

/-- Stopped by the same verdict, two such runs have the same outcome up to counts. -/
theorem finish_map_eq (h : Alike p run₁ run₂) (verdict : Verdict ℚ n) :
    (run₁.finish verdict).map forget = (run₂.finish verdict).map forget := by
  rw [← finish_map, ← finish_map, h.map_eq]

/-- Whatever grows out of the second run begins with the path of the first. -/
theorem path_prefix (h : Alike p run₁ run₂) (hleads : run₂.LeadsTo o₂) (verdict : Verdict ℚ n) :
    ((run₁.finish verdict).map forget).path <+: (o₂.map forget).path := by
  rw [h.finish_map_eq]
  exact hleads.path.map _

/-- Which of two such runs comes first does not matter. -/
theorem symm (h : Alike p run₁ run₂) : Alike p run₂ run₁ :=
  ⟨h.map_eq.symm, h.valid_right, h.valid_left⟩

/-! ## The way to a breakpoint -/

/-- On their way two such runs stay alike. -/
theorem of_approach {progress₁ progress₂ : Progress ℚ m n} (h : Alike p run₁ run₂)
    (h₁ : run₁.approach cfg = .ok progress₁)
    (h₂ : run₂.approach (cfg.withRefactorEvery every) = .ok progress₂)
    (hmap : progress₂.run.map forget = progress₁.run.map forget) :
    Alike p progress₁.run progress₂.run := by
  refine ⟨hmap.symm, ?_, ?_⟩
  · rw [tableau_of_approach h₁]
    exact h.valid_left
  · rw [tableau_of_approach h₂]
    exact h.valid_right

/-- The ways of two such runs are the same up to counts. -/
theorem approach_map_eq (h : Alike p run₁ run₂) (cfg : Config ℚ) (every : ℕ+) :
    (run₂.approach (cfg.withRefactorEvery every)).map (Progress.map forget) =
      (run₁.approach cfg).map (Progress.map forget) := by
  rw [← approach_map_forget, ← approach_map_forget, h.map_eq]
  rfl

/-- If one of two such runs stops on its way, the other does as well. -/
theorem approach_stopped (h : Alike p run₁ run₂) (every : ℕ+)
    (h₁ : run₁.approach cfg = .ok (.stopped verdict run₁')) :
    ∃ run₂', run₂.approach (cfg.withRefactorEvery every) = .ok (.stopped verdict run₂') ∧
      Alike p run₁' run₂' := by
  have hmap := h.approach_map_eq cfg every
  rw [h₁] at hmap
  obtain ⟨progress₂, h₂, hprogress⟩ := exists_of_map_eq_ok hmap
  obtain ⟨run₂', rfl, hrun⟩ := Progress.map_eq_stopped_iff.1 hprogress
  exact ⟨run₂', h₂, h.of_approach h₁ h₂ hrun⟩

/-- If one of two such runs reaches a breakpoint, the other does as well. -/
theorem approach_reached (h : Alike p run₁ run₂) (every : ℕ+)
    (h₁ : run₁.approach cfg = .ok (.reached b run₁')) :
    ∃ run₂', run₂.approach (cfg.withRefactorEvery every) = .ok (.reached b run₂') ∧
      Alike p run₁' run₂' := by
  have hmap := h.approach_map_eq cfg every
  rw [h₁] at hmap
  obtain ⟨progress₂, h₂, hprogress⟩ := exists_of_map_eq_ok hmap
  obtain ⟨b', run₂', rfl, hb, hrun⟩ := Progress.map_eq_reached_iff.1 hprogress
  rw [Breakpoint.map_forget, Breakpoint.map_forget] at hb
  subst hb
  exact ⟨run₂', h₂, h.of_approach h₁ h₂ hrun⟩

/-! ## Crossing a breakpoint -/

/-- Two such runs decide on the same exchange. -/
theorem exchanges (h : Alike p run₁ run₂) {tol : ℚ} {row : Fin m} {entering : Fin n}
    (hexchanges : run₁.tableau.Exchanges p tol b row entering) :
    run₂.tableau.Exchanges p tol b row entering := by
  rw [h.tableau_eq]
  cases hexchanges with
  | primal hcrossing hchosen => exact .primal hcrossing hchosen
  | dual hcrossing hchosen => exact .dual hcrossing hchosen

/-- Two such runs find nothing to exchange for the same reason. -/
theorem refuses (h : Alike p run₁ run₂) {tol : ℚ}
    (hrefuses : run₁.tableau.Refuses p tol b verdict) :
    run₂.tableau.Refuses p tol b verdict := by
  rw [h.tableau_eq]
  cases hrefuses with
  | infeasible hcrossing hempty => exact .infeasible hcrossing hempty
  | unbounded hcrossing hempty => exact .unbounded hcrossing hempty

/-- Tableaus after the same exchange hold the same basis, and so they are the same. -/
theorem crossed (h : Alike p run₁ run₂) {t₁ t₂ : Tableau ℚ m n} (ht₁ : t₁.Valid p)
    (ht₂ : t₂.Valid p) (hbasis : t₁.basis = t₂.basis) (bound : Option ℚ) (e : Exchange ℚ m n) :
    Alike p { run₁ with tableau := t₁, bound, exchanges := run₁.exchanges.push e }
      { run₂ with tableau := t₂, bound, exchanges := run₂.exchanges.push e } := by
  refine ⟨?_, ht₁, ht₂⟩
  have htableau : forget.tableau t₁ = forget.tableau t₂ := by
    rw [ht₁.eq_of_basis_eq ht₂ hbasis]
    rfl
  -- All else that a run holds is the same up to counts.
  have hstalls := congrArg Run.stalls h.map_eq
  have hrecorder := congrArg Run.recorder h.map_eq
  rw [stalls_map, stalls_map] at hstalls
  rw [recorder_map, recorder_map] at hrecorder
  have hexchanges : run₁.exchanges.map (Exchange.map forget) =
      run₂.exchanges.map (Exchange.map forget) := congrArg Run.exchanges h.map_eq
  unfold map
  rw [Array.map_push, Array.map_push, htableau, hstalls, hrecorder, hexchanges]

/-- The same exchange leads to the same basis, unless one of the runs fails. -/
theorem exchange (h : Alike p run₁ run₂) {row : Fin m} {entering : Fin n}
    (hexchanges : run₁.tableau.Exchanges p cfg.tol b row entering) :
    CrossAlike p (run₁.exchange p cfg b row entering)
      (run₂.exchange p (cfg.withRefactorEvery every) b row entering) := by
  have hentry₁ := hexchanges.entry_ne_zero h.valid_left cfg.tol_pos.le
  have hentry₂ := (h.exchanges hexchanges).entry_ne_zero h.valid_right cfg.tol_pos.le
  have hbasis : run₁.tableau.basis = run₂.tableau.basis :=
    congrArg (fun run => run.tableau.basis) h.map_eq
  -- One run may correct its inverse where the other fails to compute it afresh.
  unfold Run.exchange
  rw [hbasis]
  cases hpivot₁ : run₁.tableau.pivot p cfg.refactorEvery row entering with
  | error cause => exact .failed_left
  | ok t₁ =>
    cases hpivot₂ :
        run₂.tableau.pivot p (cfg.withRefactorEvery every).refactorEvery row entering with
    | error cause => exact .failed_right
    | ok t₂ =>
      refine .crossed (h.crossed ?_ ?_ ?_ _ _)
      · exact Tableau.valid_of_pivot h.valid_left hentry₁ hpivot₁
      · exact Tableau.valid_of_pivot h.valid_right hentry₂ hpivot₂
      · rw [Tableau.basis_of_pivot_eq_ok hpivot₁, Tableau.basis_of_pivot_eq_ok hpivot₂, hbasis]

/-- At a breakpoint two such runs do the same, or one of them fails. -/
theorem cross {pivoted₁ pivoted₂ : Pivoted ℚ m n} (h : Alike p run₁ run₂)
    (h₁ : run₁.cross p cfg b = .ok pivoted₁)
    (h₂ : run₂.cross p (cfg.withRefactorEvery every) b = .ok pivoted₂) :
    CrossAlike p pivoted₁ pivoted₂ := by
  rcases cross_eq_ok h₁ with ⟨verdict, hrefuses₁, rfl⟩ | ⟨row, entering, hexchanges₁, rfl⟩
  -- Without an exchange both runs stop, by the same verdict.
  · have hrefuses₂ : run₂.tableau.Refuses p (cfg.withRefactorEvery every).tol b verdict :=
      h.refuses hrefuses₁
    rw [cross_of_refuses hrefuses₂] at h₂
    obtain rfl := Except.ok.inj h₂
    exact .stopped h
  · have hexchanges₂ :
        run₂.tableau.Exchanges p (cfg.withRefactorEvery every).tol b row entering :=
      h.exchanges hexchanges₁
    rw [cross_of_exchanges hexchanges₂] at h₂
    obtain rfl := Except.ok.inj h₂
    exact h.exchange hexchanges₁

/-! ## Whole runs -/

/-- A run that fails at a breakpoint leaves the path up to there, with which the other goes on. -/
theorem followsOrFails_of_failed (h : Alike p run₁ run₂) {cause : SingularBasis}
    (h₁ : run₁.cross p cfg b = .ok (.stopped (.refactorFailed cause) run₁'))
    (h₂ : run₂.LeadsTo o₂) : (run₁'.finish (.refactorFailed cause)).FollowsOrFails o₂ := by
  refine .fails_left rfl ?_
  have hrecorder : run₁'.recorder = run₁.recorder := (crosses_of_cross h₁).recorder_eq
  have hpath := h.path_prefix h₂ (.refactorFailed cause)
  unfold finish at hpath ⊢
  rwa [hrecorder]

/-- The second run follows the first until one of them fails. -/
theorem followsOrFails (h : Alike p run₁ run₂) (h₁ : Unrolls p cfg k run₁ o₁)
    (h₂ : Unrolls p (cfg.withRefactorEvery every) k run₂ o₂) : o₁.FollowsOrFails o₂ := by
  -- By induction on the first run. The runs find their way alike, and may part at crossings only.
  induction h₁ generalizing run₂ with
  | stopped happroach₁ =>
    obtain ⟨run₂', happroach₂, hstop⟩ := h.approach_stopped every happroach₁
    rw [h₂.eq_finish_of_stopped happroach₂]
    exact .follows (hstop.finish_map_eq _)
  | exhausted happroach₁ =>
    obtain ⟨run₂', happroach₂, hreach⟩ := h.approach_reached every happroach₁
    rw [h₂.eq_finish_of_exhausted happroach₂]
    exact .follows (hreach.finish_map_eq _)
  | @halted _ _ _ _ verdict _ happroach₁ hcross₁ =>
    obtain ⟨run₂', happroach₂, hreach⟩ := h.approach_reached every happroach₁
    have hleads₁ := (grows_of_cross hcross₁).leadsTo (leadsTo_finish _ verdict)
    have hleads₂ := h₂.leadsTo happroach₂
    rcases h₂.cross_eq_ok happroach₂ with ⟨_, _, hcross₂, rfl⟩ | ⟨run₂'', hcross₂, hrest₂⟩
    · cases hreach.cross hcross₁ hcross₂ with
      | stopped hstop => exact .follows (hstop.finish_map_eq _)
      -- Where one run fails, the other has grown out of the same marks.
      | failed_left => exact hreach.followsOrFails_of_failed hcross₁ hleads₂
      | failed_right => exact (hreach.symm.followsOrFails_of_failed hcross₂ hleads₁).symm
    · cases hreach.cross hcross₁ hcross₂ with
      | failed_left => exact hreach.followsOrFails_of_failed hcross₁ hleads₂
  | crossed happroach₁ hcross₁ hrest₁ ih =>
    obtain ⟨run₂', happroach₂, hreach⟩ := h.approach_reached every happroach₁
    have hleads₁ := (Unrolls.crossed happroach₁ hcross₁ hrest₁).leadsTo happroach₁
    rcases h₂.cross_eq_ok happroach₂ with ⟨_, _, hcross₂, rfl⟩ | ⟨run₂'', hcross₂, hrest₂⟩
    · cases hreach.cross hcross₁ hcross₂ with
      | failed_right => exact (hreach.symm.followsOrFails_of_failed hcross₂ hleads₁).symm
    · cases hreach.cross hcross₁ hcross₂ with
      | crossed hnext => exact ih hnext hrest₂

end Alike

end Run

/-- Outcomes for two numbers of corrections are the same up to counts, until one of them fails. -/
theorem followsOrFails_of_solve {p : Instance ℚ m n} {cfg : Config ℚ} {every : ℕ+}
    {o₁ o₂ : Outcome ℚ m n} (h₁ : solve p cfg = .ok o₁)
    (h₂ : solve p (cfg.withRefactorEvery every) = .ok o₂) : o₁.FollowsOrFails o₂ := by
  unfold solve at h₁ h₂
  -- Both runs have the same start, and the check of it does not depend on when inverses are
  -- computed afresh.
  cases hstart : Tableau.start p with
  | error cause =>
    rw [hstart] at h₁ h₂
    rw [← Except.ok.inj h₁, ← Except.ok.inj h₂]
    exact .follows rfl
  | ok t =>
    rw [hstart] at h₁ h₂
    dsimp only at h₁ h₂
    have htol : (cfg.withRefactorEvery every).tol = cfg.tol := rfl
    rw [htol] at h₂
    cases hfault : t.startFault? cfg.tol with
    | some verdict =>
      rw [hfault] at h₁ h₂
      rw [← Except.ok.inj h₁, ← Except.ok.inj h₂]
      exact .follows rfl
    | none =>
      rw [hfault] at h₁ h₂
      have ht := (Tableau.valid_of_start hstart).1
      have halike : Run.Alike p (.start cfg t) (.start (cfg.withRefactorEvery every) t) :=
        ⟨rfl, ht, ht⟩
      exact halike.followsOrFails (Run.unrolls_of_trace h₁) (Run.unrolls_of_trace h₂)

/-- How often the inverse is computed afresh decides only whether a run fails: two runs that do not
    fail leave the same path for the same reason, and otherwise one path begins the other. -/
theorem exists_solve_withRefactorEvery (p : Instance ℚ m n) (cfg : Config ℚ) (every : ℕ+) :
    ∃ o₁ o₂, solve p cfg = .ok o₁ ∧ solve p (cfg.withRefactorEvery every) = .ok o₂ ∧
      (o₁.status ≠ .numericalError → o₂.status ≠ .numericalError →
        o₁.verdict = o₂.verdict ∧ o₁.exchanges = o₂.exchanges ∧ o₁.basis = o₂.basis ∧
          o₁.entries = o₂.entries) ∧
      (o₁.entries <+: o₂.entries ∨ o₂.entries <+: o₁.entries) := by
  obtain ⟨o₁, h₁, -⟩ := exists_solves p cfg
  obtain ⟨o₂, h₂, -⟩ := exists_solves p (cfg.withRefactorEvery every)
  have hfollows := followsOrFails_of_solve h₁ h₂
  refine ⟨o₁, o₂, h₁, h₂, fun hstatus₁ hstatus₂ => ?_, hfollows.entries_prefix⟩
  -- A run that failed is excluded on either side.
  cases hfollows with
  | follows h => exact Outcome.eq_of_map_forget_eq h
  | fails_left hstatus => exact absurd hstatus hstatus₁
  | fails_right hstatus => exact absurd hstatus hstatus₂

end ParametricLP
