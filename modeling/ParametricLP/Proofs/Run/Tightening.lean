import Mathlib
import ParametricLP.Trace.Report
import ParametricLP.Proofs.Rounding
import ParametricLP.Proofs.Run.Growth
import ParametricLP.Proofs.Samples

/-!
# Tighter budgets

Budgets decide when a run stops, not where it goes. A run with tighter budgets makes the same moves
as one with wider budgets until one of them stops it. What it leaves behind is then the beginning of
what the other leaves, up to a last mark at a threshold of its own. A run that stops for a reason of
the problem stops alike under both.

## Key results

- `Run.Matches.approach`, `Run.Matches.cross`: both runs make the same move, or the tighter one stops
- `cutFrom_of_tighter`: outcomes under tighter and wider budgets
-/

namespace ParametricLP

variable {α : Type} {m n : ℕ}

/-- The budgets of `cfg₁` are no larger than those of `cfg₂`, and all else is the same. -/
structure Config.Tighter [Scalar α] (cfg₁ : Config α) (m n : ℕ) (cfg₂ : Config α) : Prop where
  tol_eq : cfg₁.tol = cfg₂.tol
  refactorEvery_eq : cfg₁.refactorEvery = cfg₂.refactorEvery
  maxPivots_le : cfg₁.maxPivots ≤ cfg₂.maxPivots
  maxBreakpoints_le : cfg₁.maxBreakpoints ≤ cfg₂.maxBreakpoints
  stallCap_le : cfg₁.stallCap m n ≤ cfg₂.stallCap m n
  threshold_le : cfg₂.threshold ≤ cfg₁.threshold

/-- The statuses that are not about a budget: they say something of the problem or of its numbers. -/
def Status.isFinal : Status → Bool
  | .infeasibleStart | .infeasible | .unbounded | .numericalError => true
  | _ => false

namespace Outcome

variable {o o₁ o₂ : Outcome α m n}

/-- The marks taken at breakpoints. One at the threshold is the last. -/
def settled (o : Outcome α m n) : List (Mark α (Tableau α m n)) :=
  if o.status = .lambdaThreshold then o.path.dropLast else o.path

/-- `o₁` breaks off where `o₂` may go on. -/
structure CutFrom (o₁ o₂ : Outcome α m n) : Prop where
  exchanges : o₁.exchanges <+: o₂.exchanges
  settled : o₁.settled <+: o₂.path
  eq_of_isFinal : o₁.status.isFinal = true → o₁ = o₂

/-- `o` has been stopped by a budget, and has nothing that `run` has not, except perhaps a mark at the
    threshold. -/
structure StopsBefore (o : Outcome α m n) (run : Run α m n) : Prop where
  isFinal_eq : o.status.isFinal = false
  exchanges : o.exchanges <+: run.exchanges.toList
  settled : o.settled <+: run.recorder.marks.toList

/-- What a budget has stopped is cut from what the run leads to. -/
theorem StopsBefore.cutFrom {run : Run α m n} (h : o₁.StopsBefore run) (h' : run.LeadsTo o₂) :
    o₁.CutFrom o₂ := by
  refine ⟨h.exchanges.trans h'.exchanges, h.settled.trans h'.path, fun hfinal => ?_⟩
  rw [h.isFinal_eq] at hfinal
  exact nomatch hfinal

/-- Settled marks begin the path. -/
theorem settled_prefix (o : Outcome α m n) : o.settled <+: o.path := by
  unfold settled
  split
  · exact List.dropLast_prefix _
  · exact List.prefix_rfl

/-- An outcome is cut from itself. -/
theorem CutFrom.of_eq (h : o₁ = o₂) : o₁.CutFrom o₂ := by
  subst h
  exact ⟨List.prefix_rfl, o₁.settled_prefix, fun _ => rfl⟩

end Outcome

namespace Run

/-- Two runs that have made the same moves, the first with no more room to record. -/
structure Matches (run₁ run₂ : Run α m n) : Prop where
  tableau_eq : run₁.tableau = run₂.tableau
  bound_eq : run₁.bound = run₂.bound
  stalls_eq : run₁.stalls = run₂.stalls
  exchanges_eq : run₁.exchanges = run₂.exchanges
  marks_eq : run₁.recorder.marks = run₂.recorder.marks
  capacity_le : run₁.recorder.capacity ≤ run₂.recorder.capacity

/-- What a run with tighter budgets comes to on its way: the breakpoint that the other comes to, or
    an end that the other has not passed yet. -/
inductive EndsOrMatches : Progress α m n → Progress α m n → Prop where
  | ends {verdict run₁ progress₂} (h : (run₁.finish verdict).StopsBefore progress₂.run) :
      EndsOrMatches (.stopped verdict run₁) progress₂
  | reached {b run₁ run₂} (h : Matches run₁ run₂) :
      EndsOrMatches (.reached b run₁) (.reached b run₂)

/-- What two runs come to that make the same pivot or stop for the same reason. -/
inductive StopsOrMatches : Pivoted α m n → Pivoted α m n → Prop where
  | stopped {verdict run₁ run₂} (h : Matches run₁ run₂) :
      StopsOrMatches (.stopped verdict run₁) (.stopped verdict run₂)
  | crossed {run₁ run₂} (h : Matches run₁ run₂) : StopsOrMatches (.crossed run₁) (.crossed run₂)

variable {run₁ run₂ run₁' run₂' : Run α m n} {b : Breakpoint α m n} {o₁ o₂ : Outcome α m n}
  {k₁ k₂ : ℕ}

/-- A recorder with no more room is full where the other is. -/
theorem Matches.isFull_of_isFull (h : Matches run₁ run₂) (hfull : run₂.recorder.isFull = true) :
    run₁.recorder.isFull = true := by
  unfold Recorder.isFull Recorder.size at hfull ⊢
  rw [decide_eq_true_eq] at hfull ⊢
  rw [h.marks_eq]
  exact h.capacity_le.trans hfull

/-- Runs that have made the same moves and stop for the same reason leave the same behind. -/
theorem Matches.finish_eq (h : Matches run₁ run₂) (verdict : Verdict α n) :
    run₁.finish verdict = run₂.finish verdict := by
  unfold finish
  rw [h.marks_eq, h.exchanges_eq, h.tableau_eq]

/-- What the second run grows into the first leads to as well. -/
theorem Matches.grows (h : Matches run₁ run₂) (hgrows : run₂.Grows run₂') : run₁.Grows run₂' := by
  refine ⟨?_, ?_⟩
  · rw [h.marks_eq]
    exact hgrows.marks
  · rw [h.exchanges_eq]
    exact hgrows.exchanges

/-- A run that stops for a budget stops before what it could have grown into. -/
theorem Grows.stopsBefore (h : run₁.Grows run₂) {verdict : Verdict α n}
    (hfinal : verdict.status.isFinal = false) : (run₁.finish verdict).StopsBefore run₂ :=
  ⟨hfinal, h.exchanges, (Outcome.settled_prefix _).trans h.marks⟩

variable [Scalar α] {p : Instance α m n} {cfg₁ cfg₂ : Config α}

/-! ## Recording -/

/-- Runs that record the same go on alike, unless the first is full. Then it has no more marks. -/
theorem Matches.record (h : Matches run₁ run₂) {lam : α} (h₁ : run₁.record lam = .ok run₁')
    (h₂ : run₂.record lam = .ok run₂') :
    run₁'.Grows run₂' ∧ (run₁'.recorder.isFull = false → Matches run₁' run₂') := by
  obtain ⟨hrun₁, ⟨hsame, hfull⟩ | happend₁⟩ := record_eq_ok h₁
  · -- A full recorder stays as it is.
    rw [hsame] at hrun₁
    rw [hrun₁]
    exact ⟨h.grows (grows_of_record h₂), fun hroom => nomatch hfull.symm.trans hroom⟩
  · obtain ⟨hrun₂, ⟨-, hfull⟩ | happend₂⟩ := record_eq_ok h₂
    · -- The second recorder cannot be full before the first.
      rw [Recorder.append_eq_ok_none_iff.2 (h.isFull_of_isFull hfull)] at happend₁
      exact nomatch happend₁
    · obtain ⟨hmarks₁, hcapacity₁, -⟩ := Recorder.append_eq_ok_some happend₁
      obtain ⟨hmarks₂, hcapacity₂, -⟩ := Recorder.append_eq_ok_some happend₂
      have hmatches : Matches run₁' run₂' := by
        rw [hrun₁, hrun₂]
        refine ⟨h.tableau_eq, h.bound_eq, h.stalls_eq, h.exchanges_eq, ?_, ?_⟩
        · rw [hmarks₁, hmarks₂, h.marks_eq, h.tableau_eq]
        · rw [hcapacity₁, hcapacity₂]
          exact h.capacity_le
      exact ⟨hmatches.grows (.refl run₂'), fun _ => hmatches⟩

/-! ## The way to a breakpoint -/

/-- A mark at the threshold is not counted. -/
theorem Grows.stopsBefore_of_record (h : run₁.Grows run₂) {lam : α}
    (hrecord : run₁.record lam = .ok run₁') :
    (run₁'.finish .reachedThreshold).StopsBefore run₂ := by
  have hsettled : (run₁'.finish .reachedThreshold).settled =
    run₁'.recorder.marks.toList.dropLast := if_pos rfl
  obtain ⟨hrun, hrecorder⟩ := record_eq_ok hrecord
  refine ⟨rfl, ?_, ?_⟩
  · rw [hrun]
    exact h.exchanges
  · rw [hsettled]
    -- The mark at the threshold is the last one, or it was not taken.
    rcases hrecorder with ⟨hsame, -⟩ | happend
    · rw [hsame]
      exact (List.dropLast_prefix _).trans h.marks
    · rw [(Recorder.append_eq_ok_some happend).1, Array.toList_push, List.dropLast_concat]
      exact h.marks

/-- Arriving at the same breakpoint, the run with tighter budgets stops or does as the other. -/
theorem Matches.arrive {progress₁ progress₂ : Progress α m n} (h : Matches run₁ run₂)
    (hcap : cfg₁.stallCap m n ≤ cfg₂.stallCap m n) (h₁ : run₁.arrive cfg₁ b = .ok progress₁)
    (h₂ : run₂.arrive cfg₂ b = .ok progress₂) : EndsOrMatches progress₁ progress₂ := by
  rcases arrive_eq_ok h₁ with ⟨hbelow₁, run₁', hrecord₁, rfl⟩ | ⟨hstall₁, rfl⟩
  · rcases arrive_eq_ok h₂ with ⟨-, run₂', hrecord₂, rfl⟩ | ⟨hstall₂, -⟩
    · obtain ⟨hgrows, hmatches⟩ := h.record hrecord₁ hrecord₂
      -- Only the first recorder may be full after the mark.
      by_cases hfull₁ : run₁'.recorder.isFull = true
      · rw [if_pos hfull₁]
        refine .ends (Grows.stopsBefore ?_ rfl)
        rw [run_ite_stopped]
        exact ⟨hgrows.marks, hgrows.exchanges⟩
      · have hmatches := hmatches (Bool.eq_false_of_not_eq_true hfull₁)
        -- The other recorder has more room, so it is not full either.
        rw [if_neg hfull₁, if_neg (mt hmatches.isFull_of_isFull hfull₁)]
        exact .reached ⟨hmatches.tableau_eq, hmatches.bound_eq, rfl, hmatches.exchanges_eq,
          hmatches.marks_eq, hmatches.capacity_le⟩
    -- A breakpoint below the bound of one run is below that of the other.
    · rw [h.bound_eq, hstall₂] at hbelow₁
      exact nomatch hbelow₁
  · rcases arrive_eq_ok h₂ with ⟨hbelow₂, -⟩ | ⟨-, rfl⟩
    · rw [h.bound_eq, hbelow₂] at hstall₁
      exact nomatch hstall₁
    · rw [← h.stalls_eq]
      -- A stall beyond the wider cap is beyond the tighter one.
      by_cases hcap₁ : cfg₁.stallCap m n < run₁.stalls + 1
      · rw [if_pos hcap₁]
        refine .ends (Grows.stopsBefore ?_ rfl)
        have hgrows := h.grows (.refl run₂)
        rw [run_ite_stopped]
        exact ⟨hgrows.marks, hgrows.exchanges⟩
      · have hcap₂ : ¬ cfg₂.stallCap m n < run₁.stalls + 1 := by omega
        rw [if_neg hcap₁, if_neg hcap₂]
        exact .reached ⟨h.tableau_eq, h.bound_eq, rfl, h.exchanges_eq, h.marks_eq, h.capacity_le⟩

/-- On its way the run with tighter budgets stops or reaches the breakpoint that the other does. -/
theorem Matches.approach [Scalar.RoundsInOrder α] {progress₁ progress₂ : Progress α m n}
    (h : Matches run₁ run₂) (hcfg : cfg₁.Tighter m n cfg₂) (h₁ : run₁.approach cfg₁ = .ok progress₁)
    (h₂ : run₂.approach cfg₂ = .ok progress₂) : EndsOrMatches progress₁ progress₂ := by
  rcases approach_eq_ok h₁ with ⟨-, hstop⟩ | ⟨b, hnext₁, hfloor₁, harrive₁⟩
  · -- A run at its threshold has stopped, wherever the other goes.
    have hgrows := h.grows (grows_of_approach h₂)
    obtain ⟨run₁', rfl, rfl | hrecord⟩ := stopAtThreshold_eq_ok hstop
    · exact .ends (hgrows.stopsBefore rfl)
    · exact .ends (hgrows.stopsBefore_of_record hrecord)
  · rw [h.tableau_eq, hcfg.tol_eq] at hnext₁
    rw [h.bound_eq] at hfloor₁ harrive₁
    rcases approach_eq_ok h₂ with ⟨hbelow₂, -⟩ | ⟨b', hnext₂, -, harrive₂⟩
    · -- A breakpoint above the floor of the first run is above that of the second.
      have hfloor := Config.floor_le_floor hcfg.tol_eq.symm hcfg.threshold_le
      exact absurd (Scalar.RoundsInOrder.le_trans (hbelow₂ b hnext₁) hfloor) hfloor₁
    · obtain rfl := Choice.chosen.inj (hnext₁.symm.trans hnext₂)
      exact h.arrive hcfg.stallCap_le harrive₁ harrive₂

/-! ## Crossing a breakpoint -/

/-- The same exchange succeeds or fails in both runs. -/
theorem Matches.exchange (h : Matches run₁ run₂) (hcfg : cfg₁.Tighter m n cfg₂) (row : Fin m)
    (entering : Fin n) :
    StopsOrMatches (run₁.exchange p cfg₁ b row entering) (run₂.exchange p cfg₂ b row entering) := by
  unfold Run.exchange
  rw [h.tableau_eq, hcfg.refactorEvery_eq]
  -- A pivot depends on the tableau and on the count of corrections only.
  cases run₂.tableau.pivot p cfg₂.refactorEvery row entering with
  | error cause =>
    exact .stopped ⟨rfl, h.bound_eq, h.stalls_eq, h.exchanges_eq, h.marks_eq, h.capacity_le⟩
  | ok tableau =>
    refine .crossed ⟨rfl, rfl, h.stalls_eq, ?_, h.marks_eq, h.capacity_le⟩
    rw [h.exchanges_eq]

/-- At the same breakpoint both runs do the same. -/
theorem Matches.cross {pivoted₁ pivoted₂ : Pivoted α m n} (h : Matches run₁ run₂)
    (hcfg : cfg₁.Tighter m n cfg₂) (h₁ : run₁.cross p cfg₁ b = .ok pivoted₁)
    (h₂ : run₂.cross p cfg₂ b = .ok pivoted₂) : StopsOrMatches pivoted₁ pivoted₂ := by
  rcases cross_eq_ok h₁ with ⟨verdict, hrefuses, rfl⟩ | ⟨row, entering, hexchanges, rfl⟩
  · rw [h.tableau_eq, hcfg.tol_eq] at hrefuses
    rw [cross_of_refuses hrefuses] at h₂
    obtain rfl := Except.ok.inj h₂
    exact .stopped h
  · rw [h.tableau_eq, hcfg.tol_eq] at hexchanges
    rw [cross_of_exchanges hexchanges] at h₂
    obtain rfl := Except.ok.inj h₂
    exact h.exchange hcfg row entering

/-! ## Whole runs -/

/-- What the run with tighter budgets leaves behind is cut from what the other does. -/
theorem Matches.cutFrom [Scalar.RoundsInOrder α] (h : Matches run₁ run₂)
    (hcfg : cfg₁.Tighter m n cfg₂) (hk : k₁ ≤ k₂) (h₁ : Unrolls p cfg₁ k₁ run₁ o₁)
    (h₂ : Unrolls p cfg₂ k₂ run₂ o₂) : o₁.CutFrom o₂ := by
  -- By induction on the first run, which the second follows as long as it goes on.
  induction h₁ generalizing k₂ run₂ with
  | stopped happroach₁ =>
    obtain ⟨progress₂, happroach₂, hleads⟩ := h₂.exists_approach
    cases h.approach hcfg happroach₁ happroach₂ with
    | ends hends => exact hends.cutFrom hleads
  | exhausted happroach₁ =>
    obtain ⟨progress₂, happroach₂, hleads⟩ := h₂.exists_approach
    cases h.approach hcfg happroach₁ happroach₂ with
    | reached hmatches =>
      have hgrows := hmatches.grows (.refl _)
      exact (hgrows.stopsBefore rfl).cutFrom hleads
  | halted happroach₁ hcross₁ =>
    obtain ⟨k₂, rfl⟩ := Nat.exists_eq_add_one_of_ne_zero (Nat.ne_zero_of_lt hk)
    obtain ⟨progress₂, happroach₂, -⟩ := h₂.exists_approach
    cases h.approach hcfg happroach₁ happroach₂ with
    | reached hmatches =>
      -- The first run has stopped at a pivot, and so has the second.
      rcases h₂.cross_eq_ok happroach₂ with ⟨_, _, hcross₂, rfl⟩ | ⟨_, hcross₂, -⟩
      · cases hmatches.cross hcfg hcross₁ hcross₂ with
        | stopped hends => exact .of_eq (hends.finish_eq _)
      · -- It cannot have crossed.
        cases hmatches.cross hcfg hcross₁ hcross₂
  -- The pivot left for the first run is left for the second, which makes it too.
  | crossed happroach₁ hcross₁ _ ih =>
    obtain ⟨k₂, rfl⟩ := Nat.exists_eq_add_one_of_ne_zero (Nat.ne_zero_of_lt hk)
    obtain ⟨progress₂, happroach₂, -⟩ := h₂.exists_approach
    cases h.approach hcfg happroach₁ happroach₂ with
    | reached hmatches =>
      rcases h₂.cross_eq_ok happroach₂ with ⟨_, _, hcross₂, rfl⟩ | ⟨_, hcross₂, hrest₂⟩
      · cases hmatches.cross hcfg hcross₁ hcross₂
      · cases hmatches.cross hcfg hcross₁ hcross₂ with
        | crossed hnext => exact ih hnext (Nat.le_of_succ_le_succ hk) hrest₂

end Run

variable [Scalar α]

/-- The outcome under tighter budgets is cut from the one under wider budgets. -/
theorem cutFrom_of_tighter [Scalar.RoundsInOrder α] {p : Instance α m n} {cfg₁ cfg₂ : Config α}
    {o₁ o₂ : Outcome α m n} (hcfg : cfg₁.Tighter m n cfg₂) (h₁ : solve p cfg₁ = .ok o₁)
    (h₂ : solve p cfg₂ = .ok o₂) : o₁.CutFrom o₂ := by
  unfold solve at h₁ h₂
  rw [hcfg.tol_eq] at h₁
  -- Both budgets have the same start, and it is checked with the same tolerance.
  cases hstart : Tableau.start p with
  | error cause =>
    rw [hstart] at h₁ h₂
    exact .of_eq ((Except.ok.inj h₁).symm.trans (Except.ok.inj h₂))
  | ok t =>
    rw [hstart] at h₁ h₂
    dsimp only at h₁ h₂
    have hmatches : Run.Matches (Run.start cfg₁ t) (Run.start cfg₂ t) :=
      ⟨rfl, rfl, rfl, rfl, rfl, hcfg.maxBreakpoints_le⟩
    cases hfault : t.startFault? cfg₂.tol with
    | some verdict =>
      rw [hfault] at h₁ h₂
      rw [← Except.ok.inj h₁, ← Except.ok.inj h₂]
      exact .of_eq (hmatches.finish_eq verdict)
    | none =>
      rw [hfault] at h₁ h₂
      exact hmatches.cutFrom hcfg hcfg.maxPivots_le (Run.unrolls_of_trace h₁)
        (Run.unrolls_of_trace h₂)

namespace Outcome

/-- Entries of the settled marks begin those of the longer path. -/
theorem CutFrom.entries {o₁ o₂ : Outcome α m n} (h : o₁.CutFrom o₂) :
    (if o₁.status = .lambdaThreshold then o₁.entries.dropLast else o₁.entries) <+: o₂.entries := by
  have hprefix := h.settled.map fun mark : Mark α (Tableau α m n) =>
    (⟨mark.lam, mark.held.primal mark.lam, mark.held.dual mark.lam⟩ : PathEntry α m n)
  unfold Outcome.settled at hprefix
  split
  · next hstatus =>
    rw [if_pos hstatus, List.map_dropLast] at hprefix
    exact hprefix
  · next hstatus =>
    rw [if_neg hstatus] at hprefix
    exact hprefix

end Outcome

/-- Under tighter budgets a run makes no more pivots, and what it records at breakpoints begins what
    it records under wider ones. If it stops for a reason that is no budget, both leave the same. -/
theorem entries_prefix_of_tighter [Scalar.RoundsInOrder α] {p : Instance α m n}
    {cfg₁ cfg₂ : Config α} {o₁ o₂ : Outcome α m n} (hcfg : cfg₁.Tighter m n cfg₂)
    (h₁ : solve p cfg₁ = .ok o₁) (h₂ : solve p cfg₂ = .ok o₂) :
    o₁.pivots ≤ o₂.pivots ∧
      (if o₁.status = .lambdaThreshold then o₁.entries.dropLast else o₁.entries) <+: o₂.entries ∧
        (o₁.status ∈ [.infeasibleStart, .infeasible, .unbounded, .numericalError] → o₁ = o₂) := by
  have hcut := cutFrom_of_tighter hcfg h₁ h₂
  refine ⟨hcut.exchanges.length_le, hcut.entries, fun hstatus => hcut.eq_of_isFinal ?_⟩
  cases hvalue : o₁.status with
  | infeasibleStart => rfl
  | infeasible => rfl
  | unbounded => rfl
  | numericalError => rfl
  -- All other statuses are about budgets.
  | _ =>
    rw [hvalue] at hstatus
    exact absurd hstatus (by decide)

/-- Budgets by number of breakpoints and pivots and by threshold. -/
def budgets (maxPivots breakpoints threshold : ℕ) : Config ℚ where
  maxPivots := maxPivots
  threshold := threshold
  maxBreakpoints := breakpoints + 1
  tol := 1e-6
  maxStalls := none
  refactorEvery := 64
  threshold_finite := rfl
  threshold_nonneg := not_lt.2 (Nat.cast_nonneg threshold)
  maxBreakpoints_pos := Nat.succ_pos breakpoints
  tol_pos := by norm_num
  maxStalls_pos := Options.forall_mem_none_pos
  refactorEvery_pos := by decide

/-- The first run ends at its threshold, the second goes on below it. -/
theorem entries_prefix_of_tighter_threeSegments :
    ∃ o₁ o₂, solve threeSegments (budgets 3 4 2) = .ok o₁ ∧
      solve threeSegments (budgets 5 6 0) = .ok o₂ ∧ o₁.lams = [3, 2] ∧ o₂.lams = [3, 1, 0] ∧
        o₁.pivots ≤ o₂.pivots ∧ o₁.entries.dropLast <+: o₂.entries := by
  have hrun : (solve threeSegments (budgets 3 4 2)).toOption.map (fun o => (o.status, o.lams)) =
      some (.lambdaThreshold, [3, 2]) ∧
      (solve threeSegments (budgets 5 6 0)).toOption.map (·.lams) = some [3, 1, 0] := by
    decide +kernel
  obtain ⟨o₁, h₁, hrun₁⟩ := exists_of_map_toOption hrun.1
  obtain ⟨o₂, h₂, hlams₂⟩ := exists_of_map_toOption hrun.2
  obtain ⟨hstatus, hlams₁⟩ := Prod.mk.inj hrun₁
  -- All budgets are smaller, and the threshold is higher.
  have htighter : (budgets 3 4 2).Tighter 1 3 (budgets 5 6 0) :=
    ⟨rfl, rfl, by decide, by decide, by decide, by decide +kernel⟩
  obtain ⟨hpivots, hentries, -⟩ := entries_prefix_of_tighter htighter h₁ h₂
  rw [if_pos hstatus] at hentries
  exact ⟨o₁, o₂, h₁, h₂, hlams₁, hlams₂, hpivots, hentries⟩

end ParametricLP
