import Mathlib
import ParametricLP.Proofs.Run.Valid
import ParametricLP.Proofs.Tableau.Resolution

/-!
# Runs whose tolerance is small enough

When the tolerance resolves the decisions of a problem, the basis in hand is optimal at the last
breakpoint crossed, whatever ties and stalls there were. It then stays optimal down to the next
crossing, where it is recorded, and no further. So the segments on which the recorded bases are
optimal meet end to end, and a run that stops at a breakpoint for want of a pivot holds a certificate
for every smaller `lam`.

## Key results

- `Run.Approaches.exactAt`, `Run.Crosses.exact`: the invariant is kept by both kinds of step
- `Run.Traces.exact`: what a whole run leaves behind
-/

namespace ParametricLP

variable {m n : ℕ} {p : Instance ℚ m n} {cfg : Config ℚ}

/-! ## Paths -/

/-- Every basis on a path is optimal from its own `lam` up to the one before, and where the path has
    gone on it is not optimal any more. -/
structure Covers (path : List (Mark ℚ (Tableau ℚ m n))) : Prop where
  optimalAt : ∀ a ∈ path, a.held.OptimalAt a.lam
  first : ∀ a ∈ path.head?, ∀ lam, a.lam ≤ lam → a.held.OptimalAt lam
  next : path.IsChain fun b a => ∀ lam, a.lam ≤ lam → lam ≤ b.lam → a.held.OptimalAt lam
  past : path.Pairwise fun b a => ¬ b.held.OptimalAt a.lam

namespace Covers

variable {path : List (Mark ℚ (Tableau ℚ m n))} {a : Mark ℚ (Tableau ℚ m n)}

/-- An empty path covers nothing and says nothing wrong. -/
theorem nil : Covers ([] : List (Mark ℚ (Tableau ℚ m n))) :=
  ⟨nofun, nofun, .nil, .nil⟩

/-- One more mark, whose basis is optimal up to the last `lam` recorded. -/
theorem append (h : Covers path) (hpath : ValidPath p (path ++ [a]))
    (hopt : ∀ lam, a.lam ≤ lam → (∀ last ∈ path.getLast?, lam ≤ last.lam) → a.held.OptimalAt lam)
    (hpast : ∀ b ∈ path, ∀ lam, lam < b.lam → ¬ b.held.OptimalAt lam) : Covers (path ++ [a]) := by
  -- Recorded `lam` decrease, so the new mark lies below all others.
  have hlt (b : Mark ℚ (Tableau ℚ m n)) (hb : b ∈ path) : a.lam < b.lam :=
    (List.pairwise_append.1 hpath.decreasing).2.2 b hb a (List.mem_singleton_self a)
  refine ⟨fun b hb => ?_, fun b hb lam hlam => ?_, ?_, ?_⟩
  · rcases List.mem_append.1 hb with hb | hb
    · exact h.optimalAt b hb
    · rw [List.mem_singleton.1 hb]
      exact hopt a.lam le_rfl fun last hlast => (hlt last (List.mem_of_getLast? hlast)).le
  · cases path with
    | nil =>
      -- The first mark has no last one above it.
      obtain rfl : a = b := Option.some.inj hb
      exact hopt lam hlam nofun
    | cons c rest => exact h.first b hb lam hlam
  -- The new segment reaches from the new mark up to the last one.
  · refine List.isChain_append.2 ⟨h.next, .singleton a, fun last hlast b hb lam hlam hle => ?_⟩
    obtain rfl : a = b := Option.some.inj hb
    refine hopt lam hlam fun last' hlast' => ?_
    rwa [Option.mem_unique hlast' hlast]
  · refine List.pairwise_append.2 ⟨h.past, List.pairwise_singleton _ _, fun b hb c hc => ?_⟩
    rw [List.mem_singleton.1 hc]
    exact hpast b hb a.lam (hlt b hb)

end Covers

/-! ## The decisions of a run -/

namespace Run

/-- The tableaus that a run comes to have in hand. -/
inductive Visits (p : Instance ℚ m n) (cfg : Config ℚ) : Run ℚ m n → Tableau ℚ m n → Prop where
  | here {run} : Visits p cfg run run.tableau
  | later {run b run' run'' t} (happroach : Approaches cfg run (.reached b run'))
      (hcross : Crosses p cfg run' b (.crossed run'')) (hvisits : Visits p cfg run'' t) :
      Visits p cfg run t

variable {run run' : Run ℚ m n} {b : Breakpoint ℚ m n} {t : Tableau ℚ m n}

/-- Every tableau that a run comes to is valid. -/
theorem Visits.valid (h : Visits p cfg run t) (hrun : run.Valid p) : t.Valid p := by
  induction h with
  | here => exact hrun.tableau
  | later happroach hcross _ ih => exact ih (hcross.valid (happroach.valid hrun))

/-- The tolerance resolves every decision that the run takes. -/
def Resolved (p : Instance ℚ m n) (cfg : Config ℚ) (run : Run ℚ m n) : Prop :=
  ∀ t, Visits p cfg run t → t.Resolves p cfg.threshold cfg.tol

/-- The way to a breakpoint does not change the tableau that is to be resolved. -/
theorem Approaches.resolves (h : Approaches cfg run (.reached b run'))
    (hres : run.tableau.Resolves p cfg.threshold cfg.tol) :
    run'.tableau.Resolves p cfg.threshold cfg.tol := by
  cases h with
  | _ => exact hres

end Run

namespace Instance

/-- The tolerance resolves every decision on the way that the problem is solved. -/
def RunResolvedBy (p : Instance ℚ m n) (cfg : Config ℚ) : Prop :=
  ∀ t, Tableau.start p = .ok t → (Run.start cfg t).Resolved p cfg

/-- A tolerance that resolves all decisions of a problem resolves those of its runs. -/
theorem ResolvedBy.runResolvedBy (h : p.ResolvedBy cfg.threshold cfg.tol) :
    p.RunResolvedBy cfg :=
  fun _ hstart t ht => h t (ht.valid (Run.valid_start cfg hstart))

end Instance

/-! ## The invariant -/

namespace Run

variable {run run' : Run ℚ m n} {b : Breakpoint ℚ m n} {k : ℕ}

/-- A run that has gone past all its marks. -/
structure Trails (p : Instance ℚ m n) (run : Run ℚ m n) : Prop extends run.Valid p where
  covers : Covers run.recorder.marks.toList
  past : ∀ a ∈ run.recorder.marks.toList, ∀ lam, lam < a.lam → ¬ a.held.OptimalAt lam

/-- A run between two breakpoints: its basis is optimal at the last one crossed. -/
structure Exact (p : Instance ℚ m n) (run : Run ℚ m n) : Prop extends run.Trails p where
  optimal : run.tableau.OptimalTowards run.bound

/-- A run at a breakpoint, where its basis is optimal for the last time. -/
structure ExactAt (p : Instance ℚ m n) (run : Run ℚ m n) (b : Breakpoint ℚ m n) : Prop
    extends run.Trails p where
  optimal : run.tableau.OptimalAt b.lam
  nextBreakpoint_eq : run.tableau.nextBreakpoint 0 = .chosen b

/-! ## Approaching a breakpoint -/

/-- The basis in hand is recorded where nothing has fallen to zero above. -/
theorem Exact.covers_append (h : run.Exact p) (hopen : run.recorder.Open cfg.threshold run.bound)
    {lam : ℚ} {recorder : Recorder ℚ (Tableau ℚ m n)}
    (happend : run.recorder.append lam run.tableau = .ok (some recorder))
    (hcross : ∀ c x, (run.tableau.crossed c).fallsToZero? 0 = some x → x ≤ lam) :
    Covers recorder.marks.toList := by
  have hpath := h.append happend
  rw [(Recorder.append_eq_ok_some happend).1, Array.toList_push] at hpath ⊢
  refine h.covers.append hpath (fun lam' hlam' hle => ?_) h.past
  refine h.optimal.optimalAt (fun top htop => ?_) fun c x hx => (hcross c x hx).trans hlam'
  -- The bound is the `lam` of the last mark.
  rw [← hopen.last?_eq, last?_eq_map_getLast?, Option.mem_map] at htop
  obtain ⟨last, hlast, rfl⟩ := htop
  exact hle last hlast

/-- A breakpoint found with a small tolerance is the one found without, and needs no clipping. -/
theorem Exact.nextBreakpoint_zero (h : run.Exact p)
    (hres : run.tableau.Resolves p cfg.threshold cfg.tol)
    (hnext : run.tableau.nextBreakpoint cfg.tol = .chosen b) :
    run.tableau.nextBreakpoint 0 = .chosen b ∧ b.clip run.bound = b := by
  rw [hres.nextBreakpoint_eq] at hnext
  exact ⟨hnext, Breakpoint.clip_eq_self (h.optimal.le_bound (h.tableau.nextBreakpoint_zero hnext).1)⟩

/-- The mark taken at a breakpoint is one that the run goes past. -/
theorem Exact.exactAt_append (h : run.Exact p) (hopen : run.recorder.Open cfg.threshold run.bound)
    {recorder : Recorder ℚ (Tableau ℚ m n)} {stalls : ℕ}
    (hnext : run.tableau.nextBreakpoint 0 = .chosen b)
    (happend : run.recorder.append b.lam run.tableau = .ok (some recorder)) :
    ExactAt p { run with recorder, stalls } b := by
  obtain ⟨hzero, hlargest⟩ := h.tableau.nextBreakpoint_zero hnext
  have hcovers := h.covers_append hopen happend hlargest
  have hmarks := (Recorder.append_eq_ok_some happend).1
  refine ⟨⟨⟨h.tableau, h.append happend⟩, hcovers, fun a ha lam hlt => ?_⟩, ?_, hnext⟩
  · dsimp only at ha
    rw [hmarks, Array.toList_push] at ha
    rcases List.mem_append.1 ha with ha | ha
    · exact h.past a ha lam hlt
    · -- Where the mark is taken something falls to zero.
      rw [List.mem_singleton.1 ha] at hlt ⊢
      exact Tableau.not_optimalAt_of_lt hzero hlt
  · -- Down to the largest crossing nothing has become negative.
    exact h.optimal.optimalAt (h.optimal.le_bound hzero) hlargest

/-- At a stall the basis is still optimal, and nothing is recorded. -/
theorem Exact.exactAt_stall (h : run.Exact p) {stalls : ℕ}
    (hnext : run.tableau.nextBreakpoint 0 = .chosen b) : ExactAt p { run with stalls } b := by
  obtain ⟨hzero, hlargest⟩ := h.tableau.nextBreakpoint_zero hnext
  exact ⟨⟨⟨h.tableau, h.path⟩, h.covers, h.past⟩,
    h.optimal.optimalAt (h.optimal.le_bound hzero) hlargest, hnext⟩

/-- At a breakpoint the basis is optimal, and the run has gone past all marks above it. -/
theorem Approaches.exactAt (h : Approaches cfg run (.reached b run')) (hrun : run.Exact p)
    (hres : run.tableau.Resolves p cfg.threshold cfg.tol)
    (hopen : run.recorder.Open cfg.threshold run.bound) : run'.ExactAt p b := by
  cases h with
  -- Whether a mark is taken or not, the breakpoint is the exact one.
  | moved hnext hfloor happend hroom =>
    obtain ⟨hzero, hclip⟩ := hrun.nextBreakpoint_zero hres hnext
    rw [hclip] at happend ⊢
    exact hrun.exactAt_append hopen hzero happend
  | stalled hnext =>
    obtain ⟨hzero, hclip⟩ := hrun.nextBreakpoint_zero hres hnext
    rw [hclip]
    exact hrun.exactAt_stall hzero

/-- The path of a run that stops on its way to a breakpoint. -/
theorem Approaches.covers {verdict : Verdict ℚ n} (h : Approaches cfg run (.stopped verdict run'))
    (hrun : run.Exact p) (hres : run.tableau.Resolves p cfg.threshold cfg.tol)
    (hopen : run.recorder.Open cfg.threshold run.bound) : Covers run'.recorder.marks.toList := by
  cases h with
  | ended hnext happend =>
    refine hrun.covers_append hopen happend fun c x hx => ?_
    -- No crossing lies above the threshold: the largest is below the floor, or there is none.
    cases hb : run.tableau.nextBreakpoint 0 with
    | undetermined => exact absurd hb (Tableau.nextBreakpoint_ne_undetermined le_rfl)
    | empty =>
      rw [hrun.tableau.fallsToZero?_of_empty hb] at hx
      exact nomatch hx
    | chosen b =>
      have hb' := hres.nextBreakpoint_eq.trans hb
      have hle := hnext b hb'
      rw [(hrun.nextBreakpoint_zero hres hb').2] at hle
      exact ((hrun.tableau.nextBreakpoint_zero hb).2 c x hx).trans (hres.le_threshold b hb hle)
  | full hnext hfloor happend =>
    obtain ⟨hzero, hclip⟩ := hrun.nextBreakpoint_zero hres hnext
    rw [hclip] at happend
    exact hrun.covers_append hopen happend (hrun.tableau.nextBreakpoint_zero hzero).2
  | cycling => exact hrun.covers

/-! ## Crossing a breakpoint -/

/-- A reduced cost that crosses zero is that of a column outside the basis. -/
theorem ExactAt.notMem_basis (h : run.ExactAt p b) {column : Fin n}
    (hcrossing : b.crossing = .dual column) : column ∉ run.tableau.basis :=
  h.tableau.mem_nonbasic_iff.1
    ((Tableau.crossed_of_mem le_rfl (Tableau.mem_of_nextBreakpoint h.nextBreakpoint_eq)).2 column
      hcrossing)

/-- What crosses at a breakpoint falls to zero there. -/
theorem ExactAt.fallsToZero? (h : run.ExactAt p b) :
    (run.tableau.crossed b.crossing).fallsToZero? 0 = some b.lam :=
  (h.tableau.nextBreakpoint_zero h.nextBreakpoint_eq).1

/-- A pivot at a breakpoint leads to a basis that is optimal there. -/
theorem Crosses.exact (h : Crosses p cfg run b (.crossed run')) (hrun : run.ExactAt p b)
    (hres : run.tableau.Resolves p cfg.threshold cfg.tol) : run'.Exact p := by
  have hvalid := h.valid hrun.toValid
  have hcross := hrun.fallsToZero?
  cases h with
  | exchanged hexchange hpivot =>
    refine ⟨⟨hvalid, hrun.covers, hrun.past⟩, ?_⟩
    -- Either ratio test chooses as it does without tolerance, and so keeps the basis optimal.
    cases hexchange with
    | primal hcrossing hchosen =>
      rw [hres.entering_eq b hrun.nextBreakpoint_eq] at hchosen
      rw [hcrossing] at hcross
      exact hrun.tableau.optimalAt_of_entering hrun.optimal
        (Affine.value_of_fallsToZero? le_rfl hcross) hchosen hpivot
    | dual hcrossing hchosen =>
      rw [hres.leaving_eq b hrun.nextBreakpoint_eq] at hchosen
      rw [hcrossing] at hcross
      exact hrun.tableau.optimalAt_of_leaving hrun.optimal (hrun.notMem_basis hcrossing)
        (Affine.value_of_fallsToZero? le_rfl hcross) hchosen hpivot

end Run

/-! ## Whole runs -/

/-- What a run leaves behind: a path that covers all `lam` down to its end, and the truth about the
    problem below it where it stopped for want of a pivot. -/
structure Outcome.Exact (p : Instance ℚ m n) (o : Outcome ℚ m n) : Prop where
  covers : Covers o.path
  infeasible : ∀ lam column, o.verdict = .infeasible lam column →
    o.lams.getLast? = some lam ∧ ∀ lam' < lam, ∀ x, ¬ p.Feasible lam' x
  unbounded : ∀ lam column, o.verdict = .unbounded lam column →
    o.lams.getLast? = some lam ∧
      ∀ lam' < lam, (∀ y, ¬ p.DualFeasible lam' y) ∧ ∀ x, ¬ p.Minimises lam' x

namespace Run

variable {run run' : Run ℚ m n} {b : Breakpoint ℚ m n} {k : ℕ}

/-- The last `lam` of an outcome is that of the last mark. -/
theorem getLast?_lams_finish (verdict : Verdict ℚ n) :
    (run.finish verdict).lams.getLast? = run.recorder.last? := by
  rw [last?_eq_map_getLast?, ← List.getLast?_map]
  rfl

/-- A run that finds nothing to exchange has a certificate; one that fails has its path. -/
theorem Crosses.exact_finish {verdict : Verdict ℚ n} (h : Crosses p cfg run b (.stopped verdict run'))
    (hrun : run.ExactAt p b) (hres : run.tableau.Resolves p cfg.threshold cfg.tol)
    (hlast : run.recorder.last? = some b.lam) : (run'.finish verdict).Exact p := by
  have hcross := hrun.fallsToZero?
  cases h with
  -- A row without candidates refutes feasibility, a column without candidates boundedness.
  | infeasible hcrossing hempty =>
    rw [hres.entering_eq b hrun.nextBreakpoint_eq] at hempty
    rw [hcrossing] at hcross
    refine ⟨hrun.covers, fun lam column heq => ?_, nofun⟩
    obtain ⟨rfl, rfl⟩ := Verdict.infeasible.inj heq
    rw [getLast?_lams_finish]
    exact ⟨hlast, fun lam' hlt => hrun.tableau.not_feasible_of_entering hempty hcross hlt⟩
  | unbounded hcrossing hempty =>
    rw [hres.leaving_eq b hrun.nextBreakpoint_eq] at hempty
    have hbasis := hrun.notMem_basis hcrossing
    rw [hcrossing] at hcross
    refine ⟨hrun.covers, nofun, fun lam column heq => ?_⟩
    obtain ⟨rfl, rfl⟩ := Verdict.unbounded.inj heq
    rw [getLast?_lams_finish]
    exact ⟨hlast, fun lam' hlt => hrun.tableau.not_dualFeasible_of_leaving hbasis hempty hcross hlt⟩
  | failed => exact ⟨hrun.covers, nofun, nofun⟩

/-- A run that stops on its way to a breakpoint leaves an exact outcome. -/
theorem Approaches.exact_finish {verdict : Verdict ℚ n}
    (h : Approaches cfg run (.stopped verdict run')) (hrun : run.Exact p)
    (hres : run.tableau.Resolves p cfg.threshold cfg.tol)
    (hopen : run.recorder.Open cfg.threshold run.bound) : (run'.finish verdict).Exact p := by
  have hcovers := h.covers hrun hres hopen
  cases h with
  | _ => exact ⟨hcovers, nofun, nofun⟩

/-- A run whose decisions are resolved leaves an exact outcome. -/
theorem Traces.exact {o : Outcome ℚ m n} (h : Traces p cfg k run o) (hrun : run.Exact p)
    (hres : run.Resolved p cfg) (hopen : run.recorder.Open cfg.threshold run.bound) :
    o.Exact p := by
  -- The invariant alternates between its two forms, `Exact` and `ExactAt`.
  induction h with
  | stopped happroach => exact happroach.exact_finish hrun (hres _ .here) hopen
  | exhausted happroach =>
    exact ⟨(happroach.exactAt hrun (hres _ .here) hopen).covers, nofun, nofun⟩
  | halted happroach hcross =>
    have hat := happroach.exactAt hrun (hres _ .here) hopen
    exact hcross.exact_finish hat (happroach.resolves (hres _ .here))
      (happroach.recorder_open hopen).last?_eq
  | crossed happroach hcross _ ih =>
    have hat := happroach.exactAt hrun (hres _ .here) hopen
    exact ih (hcross.exact hat (happroach.resolves (hres _ .here)))
      (fun t ht => hres t (.later happroach hcross ht))
      (hcross.recorder_open (happroach.recorder_open hopen))

end Run

/-- Where the tolerance resolves every decision that a run takes, its outcome is exact. -/
theorem Solves.exact {o : Outcome ℚ m n} (h : Solves p cfg o) (hres : p.RunResolvedBy cfg) :
    o.Exact p := by
  cases h with
  | singular => exact ⟨.nil, nofun, nofun⟩
  | @refused t verdict hstart hfault =>
    -- A start that is refused says nothing about the problem.
    have hstatus := Tableau.status_of_startFault? hfault
    refine ⟨.nil, fun lam column heq => ?_, fun lam column heq => ?_⟩
    · obtain rfl : verdict = .infeasible lam column := heq
      exact nomatch hstatus
    · obtain rfl : verdict = .unbounded lam column := heq
      exact nomatch hstatus
  | @traced t o hstart hfault htrace =>
    -- The start is judged as without a tolerance, and then is optimal for all large `lam`.
    have ht := (Tableau.valid_of_start hstart).1
    have hresolved := hres t hstart
    have hfirst : t.Resolves p cfg.threshold cfg.tol := hresolved t .here
    rw [hfirst.startFault?_eq] at hfault
    exact htrace.exact ⟨⟨Run.valid_start cfg hstart, .nil, nofun⟩,
      Tableau.optimalTowards_of_startFault? ht hfault⟩ hresolved (Run.open_start t)

/-! ## Small tolerances -/

/-- The same budgets with another tolerance. -/
def Config.withTol (cfg : Config ℚ) (tol : ℚ) (htol : 0 < tol) : Config ℚ :=
  { cfg with tol, tol_pos := htol }

/-- With all tolerances that are small enough the outcome of a problem is exact. -/
theorem exists_tol_exact (p : Instance ℚ m n) (cfg : Config ℚ) :
    ∃ tol₀, 0 < tol₀ ∧ ∀ tol (htol : 0 < tol), tol ≤ tol₀ →
      ∃ o, solve p (cfg.withTol tol htol) = .ok o ∧ Solves p (cfg.withTol tol htol) o ∧
        o.Exact p := by
  -- One bound on the tolerance serves for all tableaus of the problem.
  obtain ⟨tol₀, hpos, hres⟩ :=
    eventually_nhdsGT_zero_iff.1 (p.eventually_resolvedBy cfg.threshold)
  refine ⟨tol₀, hpos, fun tol htol hle => ?_⟩
  obtain ⟨o, hsolve, hsolves⟩ := exists_solves p (cfg.withTol tol htol)
  exact ⟨o, hsolve, hsolves, hsolves.exact (hres tol htol hle).runResolvedBy⟩

end ParametricLP
