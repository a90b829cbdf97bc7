import Mathlib
import ParametricLP.Trace.Run
import ParametricLP.Proofs.Tableau.RatioTest

/-!
# Runs as relations

What the steps of a run come to, one constructor for each way a step can end, with the decisions that
led there. Facts about whole runs are proved by induction over `Run.Traces`, a case for each way of
going on or stopping. In rational arithmetic every step succeeds: a run keeps its bound equal to the
last `lam` recorded, so no mark is refused.

## Key results

- `Run.exists_approaches`, `Run.exists_crosses`: the steps do what their relations say
- `exists_solves`: every problem is traced to an outcome
-/

namespace ParametricLP

variable {α : Type} [Scalar α] {m n : ℕ}

/-! ## Relations -/

/-- The run itself, without what it has come to. -/
def Progress.run : Progress α m n → Run α m n
  | .stopped _ run | .reached _ run => run

def Pivoted.run : Pivoted α m n → Run α m n
  | .stopped _ run | .crossed run => run

/-- The exchange that the ratio tests decide on at a breakpoint. -/
inductive Tableau.Exchanges (p : Instance α m n) (tol : α) (t : Tableau α m n)
    (b : Breakpoint α m n) : Fin m → Fin n → Prop where
  | primal {row entering} (hcrossing : b.crossing = .primal row)
      (hchosen : t.entering p tol b.lam row = .chosen entering) : Exchanges p tol t b row entering
  | dual {row entering} (hcrossing : b.crossing = .dual entering)
      (hchosen : t.leaving p tol b.lam entering = .chosen row) : Exchanges p tol t b row entering

/-- The verdict of a ratio test that finds nothing to exchange at a breakpoint. -/
inductive Tableau.Refuses (p : Instance α m n) (tol : α) (t : Tableau α m n)
    (b : Breakpoint α m n) : Verdict α n → Prop where
  | infeasible {row} (hcrossing : b.crossing = .primal row)
      (hempty : t.entering p tol b.lam row = .empty) :
      Refuses p tol t b (.infeasible b.lam t.basis[row])
  | unbounded {column} (hcrossing : b.crossing = .dual column)
      (hempty : t.leaving p tol b.lam column = .empty) :
      Refuses p tol t b (.unbounded b.lam column)

namespace Run

/-- What `Run.approach` comes to while marks are taken. -/
inductive Approaches (cfg : Config α) (run : Run α m n) : Progress α m n → Prop where
  | ended {recorder}
      (hnext : ∀ b, run.tableau.nextBreakpoint cfg.tol = .chosen b →
        (b.clip run.bound).lam ≤ cfg.floor)
      (happend : run.recorder.append cfg.threshold run.tableau = .ok (some recorder)) :
      Approaches cfg run (.stopped .reachedThreshold { run with recorder })
  | full {b recorder} (hnext : run.tableau.nextBreakpoint cfg.tol = .chosen b)
      (hfloor : ¬ (b.clip run.bound).lam ≤ cfg.floor)
      (happend : run.recorder.append (b.clip run.bound).lam run.tableau = .ok (some recorder))
      (hfull : recorder.isFull = true) :
      Approaches cfg run
        (.stopped (.breakpointsExhausted recorder.capacity) { run with recorder, stalls := 0 })
  | moved {b recorder} (hnext : run.tableau.nextBreakpoint cfg.tol = .chosen b)
      (hfloor : ¬ (b.clip run.bound).lam ≤ cfg.floor)
      (happend : run.recorder.append (b.clip run.bound).lam run.tableau = .ok (some recorder))
      (hroom : recorder.isFull = false) :
      Approaches cfg run (.reached (b.clip run.bound) { run with recorder, stalls := 0 })
  | cycling {b} (hnext : run.tableau.nextBreakpoint cfg.tol = .chosen b)
      (hfloor : ¬ (b.clip run.bound).lam ≤ cfg.floor)
      (hstall : isBelow (b.clip run.bound).lam run.bound = false)
      (hcap : cfg.stallCap m n < run.stalls + 1) :
      Approaches cfg run (.stopped (.cycling (cfg.stallCap m n) (b.clip run.bound).lam)
        { run with stalls := run.stalls + 1 })
  | stalled {b} (hnext : run.tableau.nextBreakpoint cfg.tol = .chosen b)
      (hfloor : ¬ (b.clip run.bound).lam ≤ cfg.floor)
      (hstall : isBelow (b.clip run.bound).lam run.bound = false)
      (hcap : run.stalls + 1 ≤ cfg.stallCap m n) :
      Approaches cfg run (.reached (b.clip run.bound) { run with stalls := run.stalls + 1 })

/-- What `Run.cross` comes to. -/
inductive Crosses (p : Instance α m n) (cfg : Config α) (run : Run α m n) (b : Breakpoint α m n) :
    Pivoted α m n → Prop where
  | infeasible {row} (hcrossing : b.crossing = .primal row)
      (hempty : run.tableau.entering p cfg.tol b.lam row = .empty) :
      Crosses p cfg run b (.stopped (.infeasible b.lam run.tableau.basis[row]) run)
  | unbounded {column} (hcrossing : b.crossing = .dual column)
      (hempty : run.tableau.leaving p cfg.tol b.lam column = .empty) :
      Crosses p cfg run b (.stopped (.unbounded b.lam column) run)
  | failed {row entering cause} (hexchange : run.tableau.Exchanges p cfg.tol b row entering)
      (hpivot : run.tableau.pivot p cfg.refactorEvery row entering = .error cause) :
      Crosses p cfg run b (.stopped (.refactorFailed cause)
        { run with tableau := run.tableau.swap row entering })
  | exchanged {row entering tableau}
      (hexchange : run.tableau.Exchanges p cfg.tol b row entering)
      (hpivot : run.tableau.pivot p cfg.refactorEvery row entering = .ok tableau) :
      Crosses p cfg run b (.crossed { run with
        tableau
        bound := some b.lam
        exchanges := run.exchanges.push ⟨b.lam, b.crossing, entering, run.tableau.basis[row]⟩ })

/-- What `Run.trace` comes to with the given number of pivots left. -/
inductive Traces (p : Instance α m n) (cfg : Config α) :
    ℕ → Run α m n → Outcome α m n → Prop where
  | stopped {k run verdict run'} (happroach : Approaches cfg run (.stopped verdict run')) :
      Traces p cfg k run (run'.finish verdict)
  | exhausted {run b run'} (happroach : Approaches cfg run (.reached b run')) :
      Traces p cfg 0 run (run'.finish (.pivotsExhausted cfg.maxPivots))
  | halted {k run b run' verdict run''} (happroach : Approaches cfg run (.reached b run'))
      (hcross : Crosses p cfg run' b (.stopped verdict run'')) :
      Traces p cfg (k + 1) run (run''.finish verdict)
  | crossed {k run b run' run'' o} (happroach : Approaches cfg run (.reached b run'))
      (hcross : Crosses p cfg run' b (.crossed run'')) (htrace : Traces p cfg k run'' o) :
      Traces p cfg (k + 1) run o

end Run

/-- What `solve` comes to. -/
inductive Solves (p : Instance α m n) (cfg : Config α) : Outcome α m n → Prop where
  | singular {cause} (hstart : Tableau.start p = .error cause) :
      Solves p cfg
        { verdict := .singularStart cause, path := [], exchanges := [], basis := p.basis }
  | refused {t verdict} (hstart : Tableau.start p = .ok t)
      (hfault : t.startFault? cfg.tol = some verdict) :
      Solves p cfg ((Run.start cfg t).finish verdict)
  | traced {t o} (hstart : Tableau.start p = .ok t) (hfault : t.startFault? cfg.tol = none)
      (htrace : Run.Traces p cfg cfg.maxPivots (Run.start cfg t) o) : Solves p cfg o

/-- A start with a fault is refused. -/
theorem Tableau.status_of_startFault? {t : Tableau α m n} {tol : α} {verdict : Verdict α n}
    (h : t.startFault? tol = some verdict) : verdict.status = .infeasibleStart := by
  unfold startFault? at h
  split at h
  · obtain rfl := Option.some.inj h
    rfl
  · obtain ⟨j, -, rfl⟩ := Option.map_eq_some_iff.1 h
    rfl

/-! ## Recording -/

namespace Recorder

variable {π : Type} {r : Recorder α π} {threshold lam : α} {bound : Option α}

/-- A recorder that can take another mark: `bound` is the last `lam`, above the threshold. -/
structure Open (threshold : α) (bound : Option α) (r : Recorder α π) : Prop where
  last?_eq : r.last? = bound
  isFull_eq : r.isFull = false
  isBelow_threshold : isBelow threshold bound = true

/-- An open recorder takes what lies below its bound. -/
theorem Open.exists_append (h : r.Open threshold bound) (hbelow : isBelow lam bound = true)
    (held : π) : ∃ r', r.append lam held = .ok (some r') := by
  have hsize : ¬ r.capacity ≤ r.size := of_decide_eq_false h.isFull_eq
  unfold append
  -- There is room, and the guard of the recorder is the bound.
  rw [dif_neg hsize, h.last?_eq, if_pos hbelow]
  exact ⟨_, rfl⟩

end Recorder

namespace Run

variable {p : Instance α m n} {cfg : Config α} {run run' : Run α m n} {b : Breakpoint α m n}

/-- A run records what its recorder takes. -/
theorem record_of_append {lam : α} {recorder : Recorder α (Tableau α m n)}
    (h : run.recorder.append lam run.tableau = .ok (some recorder)) :
    run.record lam = .ok { run with recorder } := by
  unfold record
  rw [h]
  rfl

/-- A run whose recorder takes every mark below its bound; the threshold lies there. -/
structure Accepts (cfg : Config α) (run : Run α m n) : Prop where
  isBelow_threshold : isBelow cfg.threshold run.bound = true
  exists_append : ∀ lam, isBelow lam run.bound = true →
    ∃ recorder, run.recorder.append lam run.tableau = .ok (some recorder)

/-- With an open recorder every mark below the bound is taken. -/
theorem accepts_of_open (h : run.recorder.Open cfg.threshold run.bound) : run.Accepts cfg :=
  ⟨h.isBelow_threshold, fun _ hbelow => h.exists_append hbelow run.tableau⟩

/-! ## Single steps -/

/-- A run without a breakpoint above the floor records its threshold and stops. -/
private theorem approaches_of_stopAtThreshold (h : run.Accepts cfg)
    (hnext : ∀ b, run.tableau.nextBreakpoint cfg.tol = .chosen b →
      (b.clip run.bound).lam ≤ cfg.floor) :
    ∃ progress, run.stopAtThreshold cfg = .ok progress ∧ Approaches cfg run progress := by
  obtain ⟨recorder, happend⟩ := h.exists_append _ h.isBelow_threshold
  refine ⟨_, ?_, .ended hnext happend⟩
  unfold stopAtThreshold
  rw [if_pos h.isBelow_threshold, record_of_append happend]
  rfl

/-- A run with a breakpoint above the floor arrives there, if its budgets allow for that. -/
private theorem approaches_of_arrive (h : run.Accepts cfg)
    (hnext : run.tableau.nextBreakpoint cfg.tol = .chosen b)
    (hfloor : ¬ (b.clip run.bound).lam ≤ cfg.floor) :
    ∃ progress, run.arrive cfg (b.clip run.bound) = .ok progress ∧ Approaches cfg run progress := by
  unfold arrive
  by_cases hbelow : isBelow (b.clip run.bound).lam run.bound = true
  · -- The path moves on, which may fill the recorder.
    obtain ⟨recorder, happend⟩ := h.exists_append _ hbelow
    rw [if_pos hbelow, record_of_append happend]
    refine ⟨_, rfl, ?_⟩
    dsimp only
    by_cases hfull : recorder.isFull = true
    · rw [if_pos hfull]
      exact .full hnext hfloor happend hfull
    · rw [if_neg hfull]
      exact .moved hnext hfloor happend (Bool.eq_false_of_not_eq_true hfull)
  · -- A stall leaves the recorder alone.
    have hstall := Bool.eq_false_of_not_eq_true hbelow
    rw [if_neg hbelow]
    refine ⟨_, rfl, ?_⟩
    dsimp only
    by_cases hcap : cfg.stallCap m n < run.stalls + 1
    · rw [if_pos hcap]
      exact .cycling hnext hfloor hstall hcap
    · rw [if_neg hcap]
      exact .stalled hnext hfloor hstall (Nat.le_of_not_lt hcap)

/-- A run that can take another mark finds its way on unless no crossing compares with the
    largest. -/
theorem exists_approaches (h : run.Accepts cfg)
    (hnext : run.tableau.nextBreakpoint cfg.tol ≠ .undetermined) :
    ∃ progress, run.approach cfg = .ok progress ∧ Approaches cfg run progress := by
  unfold approach
  cases hb : run.tableau.nextBreakpoint cfg.tol with
  | undetermined => exact absurd hb hnext
  | empty => exact approaches_of_stopAtThreshold h fun b hb' => nomatch hb.symm.trans hb'
  | chosen b =>
    dsimp only
    by_cases hfloor : (b.clip run.bound).lam ≤ cfg.floor
    · -- Below the floor nothing is crossed any more.
      rw [if_pos hfloor]
      refine approaches_of_stopAtThreshold h fun b' hb' => ?_
      rwa [Choice.chosen.inj (hb'.symm.trans hb)]
    · rw [if_neg hfloor]
      exact approaches_of_arrive h hb hfloor

/-- An exchange succeeds or fails by its pivot. -/
private theorem crosses_exchange {row : Fin m} {entering : Fin n}
    (hexchange : run.tableau.Exchanges p cfg.tol b row entering) :
    Crosses p cfg run b (run.exchange p cfg b row entering) := by
  unfold exchange
  cases hpivot : run.tableau.pivot p cfg.refactorEvery row entering with
  | error cause => exact .failed hexchange hpivot
  | ok tableau => exact .exchanged hexchange hpivot

/-- Where nothing can be exchanged the run stops by the verdict that says so. -/
theorem cross_of_refuses {verdict : Verdict α n} (h : run.tableau.Refuses p cfg.tol b verdict) :
    run.cross p cfg b = .ok (.stopped verdict run) := by
  unfold cross
  cases h with
  | infeasible hcrossing hempty => rw [hcrossing]; dsimp only; rw [hempty]
  | unbounded hcrossing hempty => rw [hcrossing]; dsimp only; rw [hempty]

/-- Where something can be exchanged the run makes that exchange. -/
theorem cross_of_exchanges {row : Fin m} {entering : Fin n}
    (h : run.tableau.Exchanges p cfg.tol b row entering) :
    run.cross p cfg b = .ok (run.exchange p cfg b row entering) := by
  unfold cross
  cases h with
  | primal hcrossing hchosen => rw [hcrossing]; dsimp only; rw [hchosen]
  | dual hcrossing hchosen => rw [hcrossing]; dsimp only; rw [hchosen]

/-- Where the pivot of an exchange succeeds the run goes on with the tableau that it gives. -/
theorem exists_cross_eq_crossed {t : Tableau α m n} {row : Fin m} {entering : Fin n}
    (h : run.tableau.Exchanges p cfg.tol b row entering)
    (hpivot : run.tableau.pivot p cfg.refactorEvery row entering = .ok t) :
    ∃ run', run.cross p cfg b = .ok (.crossed run') ∧ run'.tableau = t := by
  rw [cross_of_exchanges h]
  unfold exchange
  rw [hpivot]
  exact ⟨_, rfl, rfl⟩

/-- A run that crosses a breakpoint does what the ratio test there decides. -/
theorem cross_eq_ok {pivoted : Pivoted α m n} (h : run.cross p cfg b = .ok pivoted) :
    (∃ verdict, run.tableau.Refuses p cfg.tol b verdict ∧ pivoted = .stopped verdict run) ∨
      ∃ row entering, run.tableau.Exchanges p cfg.tol b row entering ∧
        pivoted = run.exchange p cfg b row entering := by
  unfold cross at h
  -- A basic value is crossed by a column that enters, a reduced cost by a row that is left.
  cases hcrossing : b.crossing with
  | primal row =>
    rw [hcrossing] at h
    dsimp only at h
    cases hchoice : run.tableau.entering p cfg.tol b.lam row with
    | undetermined =>
      rw [hchoice] at h
      exact nomatch h
    | empty =>
      rw [hchoice] at h
      exact .inl ⟨_, .infeasible hcrossing hchoice, (Except.ok.inj h).symm⟩
    | chosen column =>
      rw [hchoice] at h
      exact .inr ⟨_, _, .primal hcrossing hchoice, (Except.ok.inj h).symm⟩
  | dual column =>
    rw [hcrossing] at h
    dsimp only at h
    cases hchoice : run.tableau.leaving p cfg.tol b.lam column with
    | undetermined =>
      rw [hchoice] at h
      exact nomatch h
    | empty =>
      rw [hchoice] at h
      exact .inl ⟨_, .unbounded hcrossing hchoice, (Except.ok.inj h).symm⟩
    | chosen row =>
      rw [hchoice] at h
      exact .inr ⟨_, _, .dual hcrossing hchoice, (Except.ok.inj h).symm⟩

/-- Whatever a breakpoint is crossed to is accounted for. -/
theorem crosses_of_cross {pivoted : Pivoted α m n} (h : run.cross p cfg b = .ok pivoted) :
    Crosses p cfg run b pivoted := by
  rcases cross_eq_ok h with ⟨verdict, hrefuses, rfl⟩ | ⟨row, entering, hexchanges, rfl⟩
  · cases hrefuses with
    | infeasible hcrossing hempty => exact .infeasible hcrossing hempty
    -- Neither verdict changes the run.
    | unbounded hcrossing hempty => exact .unbounded hcrossing hempty
  · exact crosses_exchange hexchanges

/-- A pivot is made or refused unless no ratio compares with the smallest. -/
theorem exists_crosses (henter : ∀ row, run.tableau.entering p cfg.tol b.lam row ≠ .undetermined)
    (hleave : ∀ column, run.tableau.leaving p cfg.tol b.lam column ≠ .undetermined) :
    ∃ pivoted, run.cross p cfg b = .ok pivoted ∧ Crosses p cfg run b pivoted := by
  unfold cross
  cases hcrossing : b.crossing with
  | primal row =>
    dsimp only
    cases hchoice : run.tableau.entering p cfg.tol b.lam row with
    | undetermined => exact absurd hchoice (henter row)
    | empty => exact ⟨_, rfl, .infeasible hcrossing hchoice⟩
    | chosen column => exact ⟨_, rfl, crosses_exchange (.primal hcrossing hchoice)⟩
  | dual column =>
    dsimp only
    cases hchoice : run.tableau.leaving p cfg.tol b.lam column with
    | undetermined => exact absurd hchoice (hleave column)
    | empty => exact ⟨_, rfl, .unbounded hcrossing hchoice⟩
    | chosen row => exact ⟨_, rfl, crosses_exchange (.dual hcrossing hchoice)⟩

end Run

/-! ## Whole runs in rational arithmetic -/

section Rational

variable {p : Instance ℚ m n} {cfg : Config ℚ} {run run' : Run ℚ m n} {b : Breakpoint ℚ m n}
  {bound : Option ℚ}

/-- In exact arithmetic the floor lies above the threshold. -/
theorem Config.threshold_lt_floor (cfg : Config ℚ) : cfg.threshold < cfg.floor :=
  lt_add_of_pos_right _ (mul_pos cfg.tol_pos (one_pos.trans_le (Scalar.one_le_atLeastOne _)))

/-- Without a bound every number lies below it. -/
theorem isBelow_none (lam : ℚ) : isBelow lam none = true := rfl

/-- A number lies below a bound if it is smaller. -/
theorem isBelow_some_iff {lam top : ℚ} : isBelow lam (some top) = true ↔ lam < top :=
  decide_eq_true_iff

namespace Breakpoint

/-- A breakpoint at or below the bound is not clipped. -/
theorem clip_eq_self (h : ∀ top ∈ bound, b.lam ≤ top) : b.clip bound = b := by
  cases bound with
  | none => rfl
  | some top => exact if_neg (not_lt.2 (h top rfl))

/-- No clipped breakpoint lies above the bound. -/
theorem lam_clip_le {top : ℚ} (h : top ∈ bound) : (b.clip bound).lam ≤ top := by
  obtain rfl : bound = some top := h
  unfold clip
  dsimp only
  split
  · exact le_rfl
  · next hle => exact not_lt.1 hle

/-- A breakpoint that does not move the run on lies at the last one. -/
theorem bound_eq_of_stall (h : isBelow (b.clip bound).lam bound = false) :
    bound = some (b.clip bound).lam := by
  cases hbound : bound with
  | none =>
    rw [hbound, isBelow_none] at h
    exact nomatch h
  | some top =>
    have hle : (b.clip (some top)).lam ≤ top := lam_clip_le rfl
    -- It is not below the bound, and a clipped breakpoint is never above it.
    rw [hbound, ← Bool.not_eq_true, isBelow_some_iff, not_lt] at h
    rw [le_antisymm hle h]

end Breakpoint

namespace Run

/-- Having reached a breakpoint above the threshold, the recorder is open at its `lam`. -/
theorem Approaches.recorder_open (h : Approaches cfg run (.reached b run'))
    (hopen : run.recorder.Open cfg.threshold run.bound) :
    run'.recorder.Open cfg.threshold (some b.lam) := by
  cases h with
  | moved hnext hfloor happend hroom =>
    refine ⟨Recorder.last?_of_append happend, hroom, isBelow_some_iff.2 ?_⟩
    -- What lies above the floor lies above the threshold.
    exact cfg.threshold_lt_floor.trans (not_le.1 hfloor)
  | stalled hnext hfloor hstall hcap =>
    -- A stall is at the bound, where the recorder was open already.
    rw [← Breakpoint.bound_eq_of_stall hstall]
    exact hopen

/-- A pivot moves the bound to the breakpoint and leaves the recorder open. -/
theorem Crosses.recorder_open (h : Crosses p cfg run b (.crossed run'))
    (hopen : run.recorder.Open cfg.threshold (some b.lam)) :
    run'.recorder.Open cfg.threshold run'.bound := by
  cases h with
  | exchanged => exact hopen

/-- No run that can take a mark at first breaks off. -/
theorem exists_traces (k : ℕ) {run : Run ℚ m n}
    (hopen : run.recorder.Open cfg.threshold run.bound) :
    ∃ o, run.trace p cfg k = .ok o ∧ Traces p cfg k run o := by
  -- By induction on the pivots left; that the recorder can take a mark is what carries it.
  obtain ⟨progress, happroach, hrel⟩ := exists_approaches (accepts_of_open hopen)
    (Tableau.nextBreakpoint_ne_undetermined cfg.tol_pos.le)
  unfold trace
  rw [happroach]
  cases progress with
  | stopped verdict run' => exact ⟨_, rfl, .stopped hrel⟩
  | reached b run' =>
    cases k with
    | zero => exact ⟨_, rfl, .exhausted hrel⟩
    | succ k =>
      obtain ⟨pivoted, hcross, hrel'⟩ : ∃ pivoted, run'.cross p cfg b = .ok pivoted ∧
          Crosses p cfg run' b pivoted :=
        exists_crosses (fun _ => Tableau.entering_ne_undetermined cfg.tol_pos.le)
          (fun _ => Tableau.leaving_ne_undetermined cfg.tol_pos.le)
      cases pivoted with
      | stopped verdict run'' =>
        refine ⟨run''.finish verdict, ?_, .halted hrel hrel'⟩
        simp only [Except.mapError, bind, Except.bind, hcross]
        rfl
      | crossed run'' =>
        -- The pivot leaves a recorder that can take another mark.
        have hopen' := hrel'.recorder_open (hrel.recorder_open hopen)
        obtain ⟨o, htrace, hrel''⟩ := exists_traces k hopen'
        refine ⟨o, ?_, .crossed hrel hrel' hrel''⟩
        simp only [Except.mapError, bind, Except.bind, hcross]
        exact htrace

/-- At its start a run has an open recorder without a bound. -/
theorem open_start (t : Tableau ℚ m n) :
    (start cfg t).recorder.Open cfg.threshold (start cfg t).bound :=
  ⟨rfl, decide_eq_false (not_le.2 cfg.maxBreakpoints_pos), isBelow_none _⟩

end Run

/-- Every problem is traced to an outcome. -/
theorem exists_solves (p : Instance ℚ m n) (cfg : Config ℚ) :
    ∃ o, solve p cfg = .ok o ∧ Solves p cfg o := by
  unfold solve
  cases hstart : Tableau.start p with
  -- A problem without a starting tableau has an outcome as well.
  | error cause => exact ⟨_, rfl, .singular hstart⟩
  | ok t =>
    dsimp only
    cases hfault : t.startFault? cfg.tol with
    | some verdict => exact ⟨_, rfl, .refused hstart hfault⟩
    | none =>
      obtain ⟨o, htrace, hrel⟩ := Run.exists_traces (p := p) cfg.maxPivots (Run.open_start t)
      exact ⟨o, htrace, .traced hstart hfault hrel⟩

end Rational

end ParametricLP
