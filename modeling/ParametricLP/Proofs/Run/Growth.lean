import Mathlib
import ParametricLP.Proofs.Run.Steps

/-!
# Runs only grow

No step of a run takes a mark or an exchange back, whatever the numbers are. So everything that a run
has recorded at some point stands at the beginning of what it leaves behind.

## Key results

- `Run.approach_eq_ok`, `Run.arrive_eq_ok`: what the first half of a step comes to
- `Run.grows_of_approach`, `Run.grows_of_cross`: both halves of a step only add
- `Run.unrolls_of_trace`: the steps behind an outcome
- `Run.Unrolls.exists_approach`: an outcome begins with what was there after the first half
-/

namespace ParametricLP

variable {α : Type} {m n : ℕ}

namespace Run

/-- `run'` has the marks and exchanges of `run`, and perhaps more. -/
structure Grows (run run' : Run α m n) : Prop where
  marks : run.recorder.marks.toList <+: run'.recorder.marks.toList
  exchanges : run.exchanges.toList <+: run'.exchanges.toList

/-- An outcome has the marks and exchanges of `run`, and perhaps more. -/
structure LeadsTo (run : Run α m n) (o : Outcome α m n) : Prop where
  path : run.recorder.marks.toList <+: o.path
  exchanges : run.exchanges.toList <+: o.exchanges

/-- The computation of `trace` unrolled: the steps that lead to an outcome with the given number of
    pivots left. -/
inductive Unrolls [Scalar α] (p : Instance α m n) (cfg : Config α) :
    ℕ → Run α m n → Outcome α m n → Prop where
  | stopped {k run verdict run'} (happroach : run.approach cfg = .ok (.stopped verdict run')) :
      Unrolls p cfg k run (run'.finish verdict)
  | exhausted {run b run'} (happroach : run.approach cfg = .ok (.reached b run')) :
      Unrolls p cfg 0 run (run'.finish (.pivotsExhausted cfg.maxPivots))
  | halted {k run b run' verdict run''} (happroach : run.approach cfg = .ok (.reached b run'))
      (hcross : run'.cross p cfg b = .ok (.stopped verdict run'')) :
      Unrolls p cfg (k + 1) run (run''.finish verdict)
  | crossed {k run b run' run'' o} (happroach : run.approach cfg = .ok (.reached b run'))
      (hcross : run'.cross p cfg b = .ok (.crossed run'')) (hrest : Unrolls p cfg k run'' o) :
      Unrolls p cfg (k + 1) run o

variable {run run' run'' : Run α m n} {b : Breakpoint α m n} {o : Outcome α m n} {k : ℕ}

/-- A run has what it has. -/
theorem Grows.refl (run : Run α m n) : run.Grows run :=
  ⟨List.prefix_rfl, List.prefix_rfl⟩

/-- What a run leads to, it led to before it grew. -/
theorem Grows.leadsTo (h : run.Grows run') (h' : run'.LeadsTo o) : run.LeadsTo o :=
  ⟨h.marks.trans h'.path, h.exchanges.trans h'.exchanges⟩

/-- Stopping leads to what the run holds. -/
theorem leadsTo_finish (run : Run α m n) (verdict : Verdict α n) :
    run.LeadsTo (run.finish verdict) :=
  ⟨List.prefix_rfl, List.prefix_rfl⟩

/-- Whether a run stops where it arrives or goes on, it holds the same. -/
theorem run_ite_stopped (c : Prop) [Decidable c] (verdict : Verdict α n) (b : Breakpoint α m n)
    (run : Run α m n) :
    (if c then Progress.stopped verdict run else Progress.reached b run).run = run := by
  split
  · rfl
  · rfl

variable [Scalar α] {p : Instance α m n} {cfg : Config α}

/-! ## Recording -/

/-- Recording changes the recorder only, which is full already or takes the tableau in hand. -/
theorem record_eq_ok {lam : α} (h : run.record lam = .ok run') :
    run' = { run with recorder := run'.recorder } ∧
      (run'.recorder = run.recorder ∧ run.recorder.isFull = true ∨
        run.recorder.append lam run.tableau = .ok (some run'.recorder)) := by
  unfold record at h
  split at h
  · next recorder happend =>
    obtain rfl := Except.ok.inj h
    refine ⟨rfl, ?_⟩
    cases recorder with
    | none => exact .inl ⟨rfl, Recorder.append_eq_ok_none_iff.1 happend⟩
    | some recorder => exact .inr happend
  · exact nomatch h

/-- Recording leaves the tableau in hand. -/
theorem tableau_of_record {lam : α} (h : run.record lam = .ok run') :
    run'.tableau = run.tableau := by
  rw [(record_eq_ok h).1]

/-- Recording takes no mark back. -/
theorem grows_of_record {lam : α} (h : run.record lam = .ok run') : run.Grows run' := by
  obtain ⟨hrun, hfull | happend⟩ := record_eq_ok h
  · rw [hrun, hfull.1]
    -- A recorder that is full stays as it is; otherwise one mark comes after the others.
    exact .refl run
  · refine ⟨?_, ?_⟩
    · rw [(Recorder.append_eq_ok_some happend).1, Array.toList_push]
      exact List.prefix_append _ _
    · rw [hrun]

/-! ## The way to a breakpoint -/

/-- A run that finds its way on has come to its threshold or arrives at a breakpoint. -/
theorem approach_eq_ok {progress : Progress α m n} (h : run.approach cfg = .ok progress) :
    ((∀ b, run.tableau.nextBreakpoint cfg.tol = .chosen b → (b.clip run.bound).lam ≤ cfg.floor) ∧
        run.stopAtThreshold cfg = .ok progress) ∨
      ∃ b, run.tableau.nextBreakpoint cfg.tol = .chosen b ∧
        ¬ (b.clip run.bound).lam ≤ cfg.floor ∧
          run.arrive cfg (b.clip run.bound) = .ok progress := by
  unfold approach at h
  cases hb : run.tableau.nextBreakpoint cfg.tol with
  | undetermined =>
    rw [hb] at h
    exact nomatch h
  | empty =>
    rw [hb] at h
    exact .inl ⟨nofun, h⟩
  | chosen b =>
    rw [hb] at h
    dsimp only at h
    by_cases hfloor : (b.clip run.bound).lam ≤ cfg.floor
    · rw [if_pos hfloor] at h
      refine .inl ⟨fun b' hb' => ?_, h⟩
      rwa [← Choice.chosen.inj hb']
    · rw [if_neg hfloor] at h
      exact .inr ⟨b, rfl, hfloor, h⟩

/-- A run that stops at its threshold has recorded it, unless it was there already. -/
theorem stopAtThreshold_eq_ok {progress : Progress α m n}
    (h : run.stopAtThreshold cfg = .ok progress) :
    ∃ run', progress = .stopped .reachedThreshold run' ∧
      (run' = run ∨ run.record cfg.threshold = .ok run') := by
  unfold stopAtThreshold at h
  split at h
  · cases hrecord : run.record cfg.threshold with
    | error cause =>
      rw [hrecord] at h
      exact nomatch h
    | ok run' =>
      rw [hrecord] at h
      exact ⟨run', (Except.ok.inj h).symm, .inr rfl⟩
  · exact ⟨run, (Except.ok.inj h).symm, .inl rfl⟩

/-- A run that arrives at a breakpoint has moved down to it and records it, or stalls. -/
theorem arrive_eq_ok {progress : Progress α m n} (h : run.arrive cfg b = .ok progress) :
    (isBelow b.lam run.bound = true ∧ ∃ run', run.record b.lam = .ok run' ∧
        progress = if run'.recorder.isFull then
          .stopped (.breakpointsExhausted run'.recorder.capacity) { run' with stalls := 0 }
        else .reached b { run' with stalls := 0 }) ∨
      (isBelow b.lam run.bound = false ∧
        progress = if cfg.stallCap m n < run.stalls + 1 then
          .stopped (.cycling (cfg.stallCap m n) b.lam) { run with stalls := run.stalls + 1 }
        else .reached b { run with stalls := run.stalls + 1 }) := by
  unfold arrive at h
  by_cases hbelow : isBelow b.lam run.bound = true
  -- Below the bound there is a new mark to take.
  · rw [if_pos hbelow] at h
    cases hrecord : run.record b.lam with
    | error cause =>
      rw [hrecord] at h
      exact nomatch h
    | ok run' =>
      rw [hrecord] at h
      exact .inl ⟨hbelow, run', rfl, (Except.ok.inj h).symm⟩
  · rw [if_neg hbelow] at h
    -- At the bound the run stalls, within its cap or beyond it.
    exact .inr ⟨Bool.eq_false_of_not_eq_true hbelow, (Except.ok.inj h).symm⟩

/-- Arriving at a breakpoint takes no mark back. -/
theorem grows_of_arrive {progress : Progress α m n} (h : run.arrive cfg b = .ok progress) :
    run.Grows progress.run := by
  rcases arrive_eq_ok h with ⟨-, run', hrecord, rfl⟩ | ⟨-, rfl⟩
  · have hgrows := grows_of_record hrecord
    rw [run_ite_stopped]
    exact ⟨hgrows.marks, hgrows.exchanges⟩
  · rw [run_ite_stopped]
    exact ⟨List.prefix_rfl, List.prefix_rfl⟩

/-- The way to a breakpoint takes no mark back. -/
theorem grows_of_approach {progress : Progress α m n} (h : run.approach cfg = .ok progress) :
    run.Grows progress.run := by
  rcases approach_eq_ok h with ⟨-, h⟩ | ⟨b, -, -, h⟩
  · obtain ⟨run', rfl, rfl | hrecord⟩ := stopAtThreshold_eq_ok h
    · exact .refl run'
    · exact grows_of_record hrecord
  · exact grows_of_arrive h

/-- The way to a breakpoint leaves the tableau alone. -/
theorem tableau_of_approach {progress : Progress α m n} (h : run.approach cfg = .ok progress) :
    progress.run.tableau = run.tableau := by
  -- A tableau is recorded here and never replaced.
  rcases approach_eq_ok h with ⟨-, h⟩ | ⟨b, -, -, h⟩
  · obtain ⟨run', rfl, rfl | hrecord⟩ := stopAtThreshold_eq_ok h
    · rfl
    · exact tableau_of_record hrecord
  · rcases arrive_eq_ok h with ⟨-, run', hrecord, rfl⟩ | ⟨-, rfl⟩
    · have htableau := tableau_of_record hrecord
      rw [run_ite_stopped]
      exact htableau
    · rw [run_ite_stopped]

/-! ## Crossing a breakpoint -/

/-- Crossing a breakpoint adds one exchange at most. -/
theorem grows_of_cross {pivoted : Pivoted α m n} (h : run.cross p cfg b = .ok pivoted) :
    run.Grows pivoted.run := by
  cases crosses_of_cross h with
  | infeasible => exact .refl run
  | unbounded => exact .refl run
  | failed => exact ⟨List.prefix_rfl, List.prefix_rfl⟩
  | exchanged =>
    refine ⟨List.prefix_rfl, ?_⟩
    dsimp only [Pivoted.run]
    rw [Array.toList_push]
    exact List.prefix_append _ _

/-! ## Whole runs -/

/-- A computation that succeeds has taken these steps. -/
theorem unrolls_of_trace (h : run.trace p cfg k = .ok o) : Unrolls p cfg k run o := by
  -- By induction on the pivots left, on which `trace` recurses.
  induction k generalizing run with
  | zero =>
    unfold trace at h
    cases happroach : run.approach cfg with
    | error cause =>
      rw [happroach] at h
      cases h
    | ok progress =>
      rw [happroach] at h
      cases progress with
      | stopped verdict run' =>
        obtain rfl := Except.ok.inj h
        exact .stopped happroach
      | reached b run' =>
        obtain rfl := Except.ok.inj h
        exact .exhausted happroach
  | succ k ih =>
    unfold trace at h
    cases happroach : run.approach cfg with
    | error cause =>
      rw [happroach] at h
      cases h
    | ok progress =>
      rw [happroach] at h
      cases progress with
      | stopped verdict run' =>
        obtain rfl := Except.ok.inj h
        exact .stopped happroach
      | reached b run' =>
        -- There is a pivot left, so the breakpoint is crossed.
        simp only [Except.mapError, bind, Except.bind] at h
        cases hcross : run'.cross p cfg b with
        | error cause =>
          rw [hcross] at h
          cases h
        | ok pivoted =>
          rw [hcross] at h
          cases pivoted with
          | stopped verdict run'' =>
            obtain rfl := Except.ok.inj h
            exact .halted happroach hcross
          | crossed run'' => exact .crossed happroach hcross (ih h)

/-- The steps behind an outcome lead to it. -/
theorem Unrolls.trace_eq (h : Unrolls p cfg k run o) : run.trace p cfg k = .ok o := by
  -- Each constructor is one branch of the computation.
  induction h with
  | stopped happroach =>
    unfold trace
    rw [happroach]
    rfl
  | exhausted happroach =>
    unfold trace
    rw [happroach]
    rfl
  | halted happroach hcross =>
    unfold trace
    simp only [happroach, hcross, Except.mapError, bind, Except.bind]
    rfl
  | crossed happroach hcross _ ih =>
    unfold trace
    simp only [happroach, hcross, Except.mapError, bind, Except.bind]
    exact ih

/-- A run with an outcome has found its way on, to what stands at the beginning of the outcome. -/
theorem Unrolls.exists_approach (h : Unrolls p cfg k run o) :
    ∃ progress, run.approach cfg = .ok progress ∧ progress.run.LeadsTo o := by
  induction h with
  | stopped happroach => exact ⟨_, happroach, leadsTo_finish _ _⟩
  | exhausted happroach => exact ⟨_, happroach, leadsTo_finish _ _⟩
  -- Whatever happens at the breakpoint keeps what was recorded on the way.
  | halted happroach hcross =>
    exact ⟨_, happroach, (grows_of_cross hcross).leadsTo (leadsTo_finish _ _)⟩
  | crossed happroach hcross _ ih =>
    -- What the rest of the run begins with has grown out of what is there.
    obtain ⟨progress, happroach', hleads⟩ := ih
    exact ⟨_, happroach,
      (grows_of_cross hcross).leadsTo ((grows_of_approach happroach').leadsTo hleads)⟩

/-- What a run holds after its way to a breakpoint stands in its outcome. -/
theorem Unrolls.leadsTo {progress : Progress α m n} (h : Unrolls p cfg k run o)
    (happroach : run.approach cfg = .ok progress) : progress.run.LeadsTo o := by
  obtain ⟨progress', happroach', hleads⟩ := h.exists_approach
  rwa [Except.ok.inj (happroach.symm.trans happroach')]

/-- A run with an outcome that stops on its way ends there. -/
theorem Unrolls.eq_finish_of_stopped {verdict : Verdict α n} (h : Unrolls p cfg k run o)
    (happroach : run.approach cfg = .ok (.stopped verdict run')) : o = run'.finish verdict := by
  cases h with
  | stopped happroach' =>
    rw [happroach] at happroach'
    obtain ⟨rfl, rfl⟩ := Progress.stopped.inj (Except.ok.inj happroach')
    rfl
  -- In the other cases the way would have led to a breakpoint.
  | exhausted happroach' => exact nomatch Except.ok.inj (happroach.symm.trans happroach')
  | halted happroach' => exact nomatch Except.ok.inj (happroach.symm.trans happroach')
  | crossed happroach' => exact nomatch Except.ok.inj (happroach.symm.trans happroach')

/-- A run with an outcome that comes to a breakpoint and may not pivot ends there. -/
theorem Unrolls.eq_finish_of_exhausted (h : Unrolls p cfg 0 run o)
    (happroach : run.approach cfg = .ok (.reached b run')) :
    o = run'.finish (.pivotsExhausted cfg.maxPivots) := by
  cases h with
  | stopped happroach' => exact nomatch Except.ok.inj (happroach.symm.trans happroach')
  | exhausted happroach' =>
    rw [happroach] at happroach'
    obtain ⟨rfl, rfl⟩ := Progress.reached.inj (Except.ok.inj happroach')
    rfl

/-- A run with an outcome that comes to a breakpoint and may pivot ends there or goes on. -/
theorem Unrolls.cross_eq_ok (h : Unrolls p cfg (k + 1) run o)
    (happroach : run.approach cfg = .ok (.reached b run')) :
    (∃ verdict run'', run'.cross p cfg b = .ok (.stopped verdict run'') ∧
        o = run''.finish verdict) ∨
      ∃ run'', run'.cross p cfg b = .ok (.crossed run'') ∧ Unrolls p cfg k run'' o := by
  cases h with
  | stopped happroach' =>
    rw [happroach] at happroach'
    exact nomatch happroach'
  | halted happroach' hcross =>
    rw [happroach] at happroach'
    obtain ⟨rfl, rfl⟩ := Progress.reached.inj (Except.ok.inj happroach')
    exact .inl ⟨_, _, hcross, rfl⟩
  | crossed happroach' hcross hrest =>
    rw [happroach] at happroach'
    obtain ⟨rfl, rfl⟩ := Progress.reached.inj (Except.ok.inj happroach')
    exact .inr ⟨_, hcross, hrest⟩

end Run

end ParametricLP
