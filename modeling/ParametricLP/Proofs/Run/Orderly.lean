import Mathlib
import ParametricLP.Proofs.Run.Bookkeeping
import ParametricLP.Proofs.Run.Tightening

/-!
# Every mark is taken

A run tries at most one mark on its way to a breakpoint. The guard in front compares with the bound
of the run, the recorder with its own last mark and its capacity. As long as the books are kept the
two agree, so no mark is refused or dropped, and a run breaks off only where numbers do not compare.
What the steps come to is then what their relations say, for numbers of any kind.

## Key results

- `Run.approach_of_nextMark?_eq_some`, `Run.approach_of_nextMark?_eq_none`: where a mark is tried
- `Instance.Passes.kept`: the books are kept all along a run
- `solves_of_solve`: a run that returns is traced by its relations
- `solve_bookkeeping`: no mark is refused, and every outcome is orderly
-/

namespace ParametricLP

variable {α : Type} [Scalar α] {m n : ℕ} {p : Instance α m n} {cfg : Config α}

namespace Run

variable {run : Run α m n} {b : Breakpoint α m n} {k left : ℕ} {lam : α} {o : Outcome α m n}

/-! ## Where a mark is tried -/

/-- Where the way to the next breakpoint takes a mark, if it does. -/
def nextMark? (cfg : Config α) (run : Run α m n) : Option α :=
  let atThreshold := if isBelow cfg.threshold run.bound then some cfg.threshold else none
  match run.tableau.nextBreakpoint cfg.tol with
  | .undetermined => none
  | .empty => atThreshold
  | .chosen b =>
    let lam := (b.clip run.bound).lam
    if lam ≤ cfg.floor then atThreshold else if isBelow lam run.bound then some lam else none

/-- A mark is tried below the bound only, and the step succeeds where the recorder takes it. -/
theorem approach_of_nextMark?_eq_some (h : run.nextMark? cfg = some lam) :
    isBelow lam run.bound = true ∧ ∃ f, run.approach cfg = (run.record lam).map f := by
  unfold nextMark? at h
  unfold approach
  -- Each branch of the guard compares with the bound just before it records.
  cases hb : run.tableau.nextBreakpoint cfg.tol with
  | undetermined => simp [hb] at h
  | empty =>
    simp only [hb, Option.ite_none_right_eq_some, Option.some.injEq] at h
    obtain ⟨hbelow, rfl⟩ := h
    exact ⟨hbelow, _, if_pos hbelow⟩
  | chosen b =>
    simp only [hb] at h ⊢
    split at h
    · next hfloor =>
      simp only [Option.ite_none_right_eq_some, Option.some.injEq] at h
      obtain ⟨hbelow, rfl⟩ := h
      rw [if_pos hfloor]
      exact ⟨hbelow, _, if_pos hbelow⟩
    · next hfloor =>
      simp only [Option.ite_none_right_eq_some, Option.some.injEq] at h
      obtain ⟨hbelow, rfl⟩ := h
      rw [if_neg hfloor]
      exact ⟨hbelow, _, if_pos hbelow⟩

/-- Where no mark is tried the step leaves the recorder alone, unless no crossing can be found. -/
theorem approach_of_nextMark?_eq_none (h : run.nextMark? cfg = none) :
    run.approach cfg = .error .undeterminedCrossing ∨
      ∃ progress, run.approach cfg = .ok progress ∧ progress.run.recorder = run.recorder := by
  unfold nextMark? at h
  unfold approach
  cases hb : run.tableau.nextBreakpoint cfg.tol with
  | undetermined => exact .inl rfl
  | empty =>
    simp only [hb, ite_eq_right_iff, reduceCtorEq, imp_false] at h
    exact .inr ⟨_, if_neg h, rfl⟩
  | chosen b =>
    simp only [hb] at h ⊢
    -- Without a mark the guard has found the place to lie at the bound.
    split at h
    · next hfloor =>
      simp only [ite_eq_right_iff, reduceCtorEq, imp_false] at h
      rw [if_pos hfloor]
      exact .inr ⟨_, if_neg h, rfl⟩
    · next hfloor =>
      simp only [ite_eq_right_iff, reduceCtorEq, imp_false] at h
      rw [if_neg hfloor]
      refine .inr ⟨_, if_neg h, ?_⟩
      rw [run_ite_stopped]

variable [Scalar.OrdersNumbers α]

/-- Only a crossing that cannot be found stops a run without a verdict on its way. -/
theorem Kept.approach_eq_error (h : run.Kept cfg k left) {cause : RunError α}
    (happroach : run.approach cfg = .error cause) : cause = .undeterminedCrossing := by
  cases hmark : run.nextMark? cfg with
  | none =>
    rcases approach_of_nextMark?_eq_none hmark with herror | ⟨progress, hok, -⟩
    · exact Except.error.inj (happroach.symm.trans herror)
    · exact nomatch happroach.symm.trans hok
  | some lam =>
    -- A mark that is tried lies below the bound, where the recorder takes it.
    obtain ⟨hbelow, f, hmap⟩ := approach_of_nextMark?_eq_some hmark
    obtain ⟨recorder, happend⟩ := h.accepts.exists_append lam hbelow
    rw [hmap, record_of_append happend] at happroach
    exact nomatch happroach

/-! ## Whole runs -/

/-- Where the books are kept, the steps of a run are those of the relations. -/
theorem Unrolls.traces (h : Unrolls p cfg k run o) (hrun : run.Kept cfg k left) :
    Traces p cfg k run o := by
  -- The books are carried along, as they say what each step comes to.
  induction h generalizing left with
  | stopped happroach => exact .stopped (hrun.approaches happroach)
  | exhausted happroach => exact .exhausted (hrun.approaches happroach)
  | halted happroach hcross =>
    exact .halted (hrun.approaches happroach) (crosses_of_cross hcross)
  | crossed happroach hcross _ ih =>
    have happroaches := hrun.approaches happroach
    have hcrosses := crosses_of_cross hcross
    obtain ⟨left', hat⟩ := happroaches.keptAt hrun
    exact .crossed happroaches hcrosses (ih (hcrosses.kept hat))

omit [Scalar.OrdersNumbers α] in
/-- Only ratios that do not compare stop a run at a breakpoint without a verdict. -/
theorem cross_eq_error {cause : RunError α} (h : run.cross p cfg b = .error cause) :
    cause = .undeterminedRatio := by
  unfold cross at h
  split at h
  · split at h
    · exact (Except.error.inj h).symm
    · exact nomatch h
    · exact nomatch h
  · split at h
    · exact (Except.error.inj h).symm
    · exact nomatch h
    · exact nomatch h

/-- It breaks off only where a comparison fails, never at the recorder. -/
theorem Kept.trace_eq_error (h : run.Kept cfg k left) {e : Breakdown α m n}
    (htrace : run.trace p cfg k = .error e) :
    e.cause = .undeterminedCrossing ∨ e.cause = .undeterminedRatio := by
  -- By induction on the pivots left; the books are kept by both halves of a step.
  induction k generalizing run left with
  | zero =>
    unfold trace at htrace
    cases happroach : run.approach cfg with
    | error cause =>
      rw [happroach] at htrace
      obtain rfl := Except.error.inj htrace
      exact .inl (h.approach_eq_error happroach)
    | ok progress =>
      rw [happroach] at htrace
      cases progress with
      | stopped verdict run' => cases htrace
      | reached b run' => cases htrace
  | succ k ih =>
    unfold trace at htrace
    cases happroach : run.approach cfg with
    | error cause =>
      rw [happroach] at htrace
      obtain rfl := Except.error.inj htrace
      exact .inl (h.approach_eq_error happroach)
    | ok progress =>
      rw [happroach] at htrace
      cases progress with
      | stopped verdict run' => cases htrace
      | reached b run' =>
        simp only [Except.mapError, bind, Except.bind] at htrace
        -- The way to the breakpoint has succeeded, and crossing it fails for its ratios only.
        obtain ⟨left', hat⟩ := (h.approaches happroach).keptAt h
        cases hcross : run'.cross p cfg b with
        | error cause =>
          rw [hcross] at htrace
          obtain rfl := Except.error.inj htrace
          exact .inr (cross_eq_error hcross)
        | ok pivoted =>
          rw [hcross] at htrace
          cases pivoted with
          | stopped verdict run'' => cases htrace
          | crossed run'' => exact ih ((crosses_of_cross hcross).kept hat) htrace

end Run

/-- The states between two breakpoints that a run comes through, with the pivots it may still make. -/
inductive Instance.Passes (p : Instance α m n) (cfg : Config α) : ℕ → Run α m n → Prop where
  | start {t} (hstart : Tableau.start p = .ok t) (hfault : t.startFault? cfg.tol = none) :
      Passes p cfg cfg.maxPivots (Run.start cfg t)
  | crossed {k run b run' run''} (h : Passes p cfg (k + 1) run)
      (happroach : run.approach cfg = .ok (.reached b run'))
      (hcross : run'.cross p cfg b = .ok (.crossed run'')) : Passes p cfg k run''

variable [Scalar.OrdersNumbers α]

/-- The books are kept wherever a run comes through. -/
theorem Instance.Passes.kept {k : ℕ} {run : Run α m n} (h : p.Passes cfg k run) :
    ∃ left, run.Kept cfg k left := by
  induction h with
  | start hstart => exact ⟨0, Run.kept_start hstart⟩
  | crossed _ happroach hcross ih =>
    obtain ⟨left, hrun⟩ := ih
    obtain ⟨left', hat⟩ := (hrun.approaches happroach).keptAt hrun
    exact ⟨left', (Run.crosses_of_cross hcross).kept hat⟩

/-- A run that returns is traced by its relations. -/
theorem solves_of_solve {o : Outcome α m n} (h : solve p cfg = .ok o) : Solves p cfg o := by
  unfold solve at h
  cases hstart : Tableau.start p with
  | error cause =>
    rw [hstart] at h
    obtain rfl := Except.ok.inj h
    exact .singular hstart
  | ok t =>
    rw [hstart] at h
    dsimp only at h
    cases hfault : t.startFault? cfg.tol with
    | some verdict =>
      rw [hfault] at h
      obtain rfl := Except.ok.inj h
      exact .refused hstart hfault
    | none =>
      rw [hfault] at h
      exact .traced hstart hfault ((Run.unrolls_of_trace h).traces (Run.kept_start hstart))

/-- A run that breaks off does so for want of numbers that compare. -/
theorem cause_of_solve_eq_error {e : Breakdown α m n} (h : solve p cfg = .error e) :
    e.cause = .undeterminedCrossing ∨ e.cause = .undeterminedRatio := by
  unfold solve at h
  cases hstart : Tableau.start p with
  | error cause =>
    rw [hstart] at h
    exact nomatch h
  | ok t =>
    rw [hstart] at h
    dsimp only at h
    cases hfault : t.startFault? cfg.tol with
    | some verdict =>
      rw [hfault] at h
      exact nomatch h
    | none =>
      rw [hfault] at h
      exact (Run.kept_start hstart).trace_eq_error h

/-- Wherever a run comes through, the mark that it tries there is neither refused nor dropped; it
    breaks off only where no crossing or no ratio compares with the best one; and every outcome is
    orderly. -/
theorem solve_bookkeeping (p : Instance α m n) (cfg : Config α) :
    (∀ k run, p.Passes cfg k run → ∀ lam ∈ run.nextMark? cfg,
      ∃ recorder, run.recorder.append lam run.tableau = .ok (some recorder)) ∧
    (∀ e, solve p cfg = .error e →
      e.cause = .undeterminedCrossing ∨ e.cause = .undeterminedRatio) ∧
    ∀ o, solve p cfg = .ok o → o.Orderly cfg := by
  refine ⟨fun k run hpass lam hlam => ?_, fun e => cause_of_solve_eq_error, fun o hsolve => ?_⟩
  · -- The books say that the recorder takes what the guard lets through.
    obtain ⟨left, hrun⟩ := hpass.kept
    exact hrun.accepts.exists_append lam (Run.approach_of_nextMark?_eq_some hlam).1
  · exact (solves_of_solve hsolve).orderly

/-- A run that ends at its threshold after one pivot. -/
theorem solve_bookkeeping_threeSegments :
    ∃ o, solve threeSegments (budgets 3 4 2) = .ok o ∧ o.lams = [3, 2] ∧ o.pivots = 1 ∧
      o.Orderly (budgets 3 4 2) := by
  have hrun : (solve threeSegments (budgets 3 4 2)).toOption.map (fun o => (o.lams, o.pivots)) =
      some ([3, 2], 1) := by
    decide +kernel
  obtain ⟨o, hsolve, hrun⟩ := exists_of_map_toOption hrun
  obtain ⟨hlams, hpivots⟩ := Prod.mk.inj hrun
  exact ⟨o, hsolve, hlams, hpivots, (solve_bookkeeping threeSegments (budgets 3 4 2)).2.2 o hsolve⟩

end ParametricLP
