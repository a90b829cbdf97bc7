import Mathlib
import ParametricLP.Trace.Report
import ParametricLP.Proofs.Run.Ledger
import ParametricLP.Proofs.Run.Steps
import ParametricLP.Proofs.Tableau.Columns

/-!
# What a run writes down

A run keeps three counts: the marks recorded, the pivots made and the stalls at the last mark. Its
recorder and its budgets look at them separately, and each way of stopping leaves them in a relation
of its own. What holds them together does not depend on how well the numbers were computed: the bound
of a run is level with its last mark, all marks lie above the floor until the last, and the ledger of
marks and pivots is balanced by the stalls.

## Key results

- `Run.Approaches.keptAt`, `Run.Crosses.kept`: both kinds of step keep the books
- `Run.Books.orderly`: what the books say of an outcome
- `Run.Traces.orderly`, `Solves.orderly`: what a run leaves behind
-/

namespace ParametricLP

variable {α : Type} [Scalar α] {m n : ℕ}

/-! ## Outcomes -/

/-- Number of pivots made at `lam`. -/
def Outcome.pivotsAt (o : Outcome α m n) (lam : α) : ℕ :=
  o.exchanges.countP fun e => decide (Scalar.Level e.lam lam)

/-- The recorded `lam` decrease from above the floor, the last one being the threshold where the path
    has reached its end; marks, pivots and stalls are within their budgets, and a budget that is said
    to be used up is; the basis at the end consists of distinct columns. -/
structure Outcome.Orderly (cfg : Config α) (o : Outcome α m n) : Prop where
  finite : ∀ lam ∈ o.lams, Scalar.isFinite lam = true
  decreasing : o.lams.Pairwise fun a b => b < a
  empty_iff : o.path = [] ↔ o.status = .infeasibleStart
  above_floor : ∀ lam ∈ if o.status = .lambdaThreshold then o.lams.dropLast else o.lams,
    cfg.floor < lam
  ended_iff : o.lams.getLast? = some cfg.threshold ↔ o.status = .lambdaThreshold
  length_le : o.path.length ≤ cfg.maxBreakpoints
  full : o.status = .maxBreakpoints → o.path.length = cfg.maxBreakpoints
  pivots_le : o.pivots ≤ cfg.maxPivots
  exhausted : o.status = .maxIter → o.pivots = cfg.maxPivots
  unspent : o.status = .maxIter → o.pivots < (cfg.stallCap m n + 1) * o.path.length
  pivotsAt_le : ∀ lam, o.pivotsAt lam ≤ cfg.stallCap m n + 1
  pivots_le_mul : o.pivots ≤ (cfg.stallCap m n + 1) * o.path.length
  cycling : o.status = .cycling →
    ∃ lam, o.lams.getLast? = some lam ∧ o.pivotsAt lam = cfg.stallCap m n + 1
  basis_injective : Function.Injective (ParametricLP.entries o.basis)

/-! ## Bounds -/

/-- Below level bounds lie the same numbers. -/
theorem isBelow_congr [Scalar.OrdersNumbers α] {x : α} {o o' : Option α}
    (h : Option.Rel Scalar.Level o o') : isBelow x o = isBelow x o' := by
  cases h with
  | some hlevel => exact decide_eq_decide.2 hlevel.lt_iff
  | none => rfl

namespace Breakpoint

variable {b : Breakpoint α m n} {bound : Option α}

/-- Clipping moves a breakpoint, but what crosses there stays the same. -/
theorem crossing_clip : (b.clip bound).crossing = b.crossing := by
  unfold clip
  split
  · split
    · rfl
    · rfl
  · rfl

variable [Scalar.OrdersNumbers α]

/-- A breakpoint below the bound needs no clipping. -/
theorem lam_clip_of_isBelow (h : isBelow (b.clip bound).lam bound = true) :
    (b.clip bound).lam = b.lam := by
  cases bound with
  | none => rfl
  | some top =>
    unfold clip at h ⊢
    by_cases habove : top < b.lam
    · -- A clipped breakpoint lies at the bound, not below it.
      simp only [habove, ↓reduceIte, isBelow, decide_eq_true_eq] at h
      exact absurd (Scalar.RoundsInOrder.le_of_lt h) (Scalar.not_le_of_lt h)
    · simp only [habove, ↓reduceIte]

/-- A breakpoint that does not move the run on is level with the bound. -/
theorem level_of_stall (hfinite : Scalar.isFinite b.lam = true) (hbound : ∀ top ∈ bound, top ≤ top)
    (h : isBelow (b.clip bound).lam bound = false) :
    ∃ top ∈ bound, Scalar.Level top (b.clip bound).lam := by
  cases bound with
  | none => simp [clip, isBelow, hfinite] at h
  | some top =>
    -- A clipped breakpoint is the bound itself; any other one is neither above nor below it.
    have htop := hbound top rfl
    refine ⟨top, rfl, ?_⟩
    unfold clip at h ⊢
    by_cases habove : top < b.lam
    · simp only [habove, ↓reduceIte]
      exact ⟨htop, htop⟩
    · simp only [habove, ↓reduceIte, isBelow, decide_eq_false_iff_not] at h ⊢
      exact Scalar.level_of_not_lt htop (Scalar.OrdersNumbers.le_self_of_isFinite hfinite) habove h

end Breakpoint

namespace Run

variable {p : Instance α m n} {cfg : Config α} {run run' : Run α m n} {b : Breakpoint α m n}
  {k left : ℕ} {lam : α} {verdict : Verdict α n} {progress : Progress α m n} {o : Outcome α m n}

/-! ## Marks and pivots -/

/-- The values of `lam` recorded so far. -/
def lams (run : Run α m n) : List α :=
  run.recorder.marks.toList.map (·.lam)

/-- Where the pivots so far were made. -/
def pivotLams (run : Run α m n) : List α :=
  run.exchanges.toList.map (·.lam)

omit [Scalar α] in
/-- The last mark is the one with the last `lam`. -/
theorem last?_eq_getLast?_lams (run : Run α m n) : run.recorder.last? = run.lams.getLast? := by
  simp [lams, Recorder.last?]

/-- A mark that is taken adds its `lam` to those recorded. -/
theorem lams_of_append {recorder : Recorder α (Tableau α m n)} (stalls : ℕ)
    (h : run.recorder.append lam run.tableau = .ok (some recorder)) :
    lams { run with recorder, stalls } = run.lams ++ [lam] := by
  simp [lams, (Recorder.append_eq_ok_some h).1]

omit [Scalar α] in
/-- A pivot adds the place where it was made. -/
theorem pivotLams_push {tableau : Tableau α m n} {bound : Option α} {e : Exchange α m n} :
    pivotLams { run with tableau, bound, exchanges := run.exchanges.push e } =
      run.pivotLams ++ [e.lam] := by
  simp [pivotLams]

/-! ## The books -/

/-- What a run has written down that may make `k` more pivots, `left` of them at its last mark. -/
structure Books (cfg : Config α) (k left : ℕ) (run : Run α m n) : Prop where
  holdsDistinct : run.tableau.HoldsDistinct
  capacity_eq : run.recorder.capacity = cfg.maxBreakpoints
  pivots_eq : run.pivotLams.length + k = cfg.maxPivots
  finite : ∀ lam ∈ run.lams, Scalar.isFinite lam = true
  ledger : Ledger (cfg.stallCap m n) left run.lams run.pivotLams

/-- The books of a run that goes on: there is room for another mark, and all marks are above the
    floor. -/
structure OpenBooks (cfg : Config α) (k left : ℕ) (run : Run α m n) : Prop
    extends run.Books cfg k left where
  isFull_eq : run.recorder.isFull = false
  above : ∀ lam ∈ run.lams, cfg.floor < lam

/-- The books of a run between two breakpoints: its bound is level with its last mark. -/
structure Kept (cfg : Config α) (k left : ℕ) (run : Run α m n) : Prop
    extends run.OpenBooks cfg k left where
  bound : Option.Rel Scalar.Level run.lams.getLast? run.bound
  left_eq : run.bound = none ∨ left + run.stalls = cfg.stallCap m n

/-- The books of a run at a breakpoint, which is level with its last mark and where it may pivot. -/
structure KeptAt (cfg : Config α) (k left : ℕ) (run : Run α m n) (b : Breakpoint α m n) : Prop
    extends run.OpenBooks cfg k (left + 1) where
  last : ∃ last ∈ run.lams.getLast?, Scalar.Level last b.lam
  left_eq : left + run.stalls = cfg.stallCap m n
  mem_nonbasic : ∀ column, b.crossing = .dual column → column ∈ run.tableau.nonbasic

/-- Stalls are not written down. -/
theorem OpenBooks.stall (h : run.OpenBooks cfg k left) (stalls : ℕ) :
    OpenBooks cfg k left { run with stalls } :=
  ⟨⟨h.holdsDistinct, h.capacity_eq, h.pivots_eq, h.finite, h.ledger⟩, h.isFull_eq, h.above⟩

/-- At its start a run has empty books and all its budgets. -/
theorem kept_start {t : Tableau α m n} (h : Tableau.start p = .ok t) :
    (start cfg t).Kept cfg cfg.maxPivots 0 where
  holdsDistinct := Tableau.holdsDistinct_of_start h
  capacity_eq := rfl
  pivots_eq := Nat.zero_add _
  finite := nofun
  ledger := .start
  isFull_eq := decide_eq_false (Nat.not_le.2 cfg.maxBreakpoints_pos)
  above := nofun
  bound := .none
  left_eq := .inl rfl

variable [Scalar.OrdersNumbers α]

open Scalar.RoundsInOrder Scalar.OrdersNumbers

/-! ## Taking marks -/

/-- Below the last mark is below the bound. -/
theorem Kept.isBelow_last?_eq (h : run.Kept cfg k left) (x : α) :
    isBelow x run.recorder.last? = isBelow x run.bound := by
  rw [last?_eq_getLast?_lams]
  exact isBelow_congr h.bound

omit [Scalar.OrdersNumbers α] in
/-- A bound is level with the last mark. -/
theorem Kept.exists_last (h : run.Kept cfg k left) {top : α} (htop : run.bound = some top) :
    ∃ last ∈ run.lams.getLast?, Scalar.Level last top := by
  have hbound := h.bound
  rw [htop] at hbound
  cases hlast : run.lams.getLast? with
  | none =>
    rw [hlast] at hbound
    exact nomatch hbound
  | some last =>
    rw [hlast] at hbound
    cases hbound with
    | some hlevel => exact ⟨last, rfl, hlevel⟩

/-- A run that stalls does so at its last mark. -/
theorem Kept.exists_last_of_stall (h : run.Kept cfg k left)
    (hnext : run.tableau.nextBreakpoint cfg.tol = .chosen b)
    (hstall : isBelow (b.clip run.bound).lam run.bound = false) :
    left + run.stalls = cfg.stallCap m n ∧
      ∃ last ∈ run.lams.getLast?, Scalar.Level last (b.clip run.bound).lam := by
  have hself (top : α) (htop : top ∈ run.bound) : top ≤ top := by
    obtain ⟨last, -, hlevel⟩ := h.exists_last htop
    -- The bound compares with itself because it is level with the last mark.
    exact le_self_right hlevel.1
  obtain ⟨top, htop, hlevel⟩ :=
    Breakpoint.level_of_stall (Selection.mem_of_argmax hnext).2 hself hstall
  obtain ⟨last, hlast, hlevel'⟩ := h.exists_last htop
  -- There is a bound, so the stalls are those made since the last mark.
  refine ⟨h.left_eq.resolve_left ?_, last, hlast, hlevel'.trans hlevel⟩
  rw [Option.mem_def.1 htop]
  exact nofun

/-- All marks so far lie above the threshold. -/
theorem Kept.isBelow_threshold (h : run.Kept cfg k left) :
    isBelow cfg.threshold run.bound = true := by
  rw [← isBelow_congr h.bound]
  cases hlast : run.lams.getLast? with
  -- Without a mark the bound is infinite.
  | none => simp [isBelow, cfg.threshold_finite]
  | some last =>
    have habove := h.above last (List.mem_of_getLast? hlast)
    exact decide_eq_true (Scalar.lt_of_le_of_lt cfg.threshold_le_floor habove)

/-- What lies below the bound lies below the last mark, so it is not refused. -/
theorem Kept.accepts (h : run.Kept cfg k left) : run.Accepts cfg := by
  refine ⟨h.isBelow_threshold, fun lam hbelow => ?_⟩
  have hsize : ¬ run.recorder.capacity ≤ run.recorder.size := of_decide_eq_false h.isFull_eq
  unfold Recorder.append
  rw [dif_neg hsize, h.isBelow_last?_eq, if_pos hbelow]
  exact ⟨_, rfl⟩

omit [Scalar.OrdersNumbers α] in
/-- A mark that is taken allows for pivots at a new `lam`. -/
theorem Books.append (h : run.Books cfg k left) (hfinite : Scalar.isFinite lam = true)
    {recorder : Recorder α (Tableau α m n)} (stalls : ℕ)
    (happend : run.recorder.append lam run.tableau = .ok (some recorder)) :
    Books cfg k (cfg.stallCap m n + 1) { run with recorder, stalls } := by
  obtain ⟨-, hcapacity, hbelow⟩ := Recorder.append_eq_ok_some happend
  rw [last?_eq_getLast?_lams] at hbelow
  have hmarks := lams_of_append stalls happend
  refine ⟨h.holdsDistinct, hcapacity.trans h.capacity_eq, h.pivots_eq, ?_, ?_⟩
  · rw [hmarks]
    simpa [or_imp, forall_and] using ⟨h.finite, hfinite⟩
  · -- The ledger takes marks that lie below the last one.
    rw [hmarks]
    refine h.ledger.mark fun last hlast => ?_
    rw [hlast] at hbelow
    exact of_decide_eq_true hbelow

/-! ## The way to a breakpoint -/

/-- A run between two breakpoints approaches the next one in one of the five ways. -/
theorem Kept.approaches (h : run.Kept cfg k left) (happroach : run.approach cfg = .ok progress) :
    Approaches cfg run progress := by
  have hnext : run.tableau.nextBreakpoint cfg.tol ≠ .undetermined := by
    intro hnone
    unfold approach at happroach
    rw [hnone] at happroach
    exact nomatch happroach
  obtain ⟨progress', happroach', hrel⟩ := exists_approaches h.accepts hnext
  rwa [Except.ok.inj (happroach.symm.trans happroach')]

omit [Scalar.OrdersNumbers α] in
/-- A column whose reduced cost crosses zero is not in the basis. -/
theorem mem_nonbasic_of_clip {column : Fin n}
    (hnext : run.tableau.nextBreakpoint cfg.tol = .chosen b)
    (hcrossing : (b.clip run.bound).crossing = .dual column) : column ∈ run.tableau.nonbasic := by
  rw [Breakpoint.crossing_clip] at hcrossing
  exact Tableau.mem_nonbasic_of_nextBreakpoint hnext hcrossing

/-- Above the floor a breakpoint is a number above it. -/
theorem floor_lt_of_not_le (hfinite : Scalar.isFinite lam = true) (h : ¬ lam ≤ cfg.floor) :
    cfg.floor < lam :=
  Scalar.lt_of_not_le (le_self_of_isFinite hfinite) (le_self_right cfg.threshold_le_floor) h

/-- A run that moves on has one more mark above the floor. -/
theorem Kept.append (h : run.Kept cfg k left)
    (hnext : run.tableau.nextBreakpoint cfg.tol = .chosen b)
    (hfloor : ¬ (b.clip run.bound).lam ≤ cfg.floor) {recorder : Recorder α (Tableau α m n)}
    (happend : run.recorder.append (b.clip run.bound).lam run.tableau = .ok (some recorder)) :
    Scalar.isFinite (b.clip run.bound).lam = true ∧
      Books cfg k (cfg.stallCap m n + 1) { run with recorder, stalls := 0 } ∧
        ∀ x ∈ run.lams ++ [(b.clip run.bound).lam], cfg.floor < x := by
  have hfinite : Scalar.isFinite (b.clip run.bound).lam = true := by
    -- What was recorded lies below the bound, so it was not clipped and is a finite crossing.
    have hbelow := (Recorder.append_eq_ok_some happend).2.2
    rw [h.isBelow_last?_eq] at hbelow
    rw [Breakpoint.lam_clip_of_isBelow hbelow]
    exact (Selection.mem_of_argmax hnext).2
  refine ⟨hfinite, h.toBooks.append hfinite 0 happend, ?_⟩
  simpa [or_imp, forall_and] using ⟨h.above, floor_lt_of_not_le hfinite hfloor⟩

/-- The way to a breakpoint keeps the books. -/
theorem Approaches.keptAt (h : Approaches cfg run (.reached b run')) (hrun : run.Kept cfg k left) :
    ∃ left', run'.KeptAt cfg k left' b := by
  cases h with
  | @moved b recorder hnext hfloor happend hroom =>
    -- The new mark allows for one pivot and as many stalls as the cap says.
    obtain ⟨hfinite, hbooks, habove⟩ := hrun.append hnext hfloor happend
    have hself := le_self_of_isFinite hfinite
    have hmarks := lams_of_append 0 happend
    refine ⟨cfg.stallCap m n, ⟨⟨hbooks, hroom, ?_⟩, ?_, rfl, fun column => mem_nonbasic_of_clip hnext⟩⟩
    · rw [hmarks]
      exact habove
    · rw [hmarks]
      exact ⟨_, List.getLast?_concat, hself, hself⟩
  | @stalled b hnext hfloor hstall hcap =>
    obtain ⟨hleft, hlast⟩ := hrun.exists_last_of_stall hnext hstall
    -- The stall was within the cap, so one of the pivots allowed for is left.
    obtain ⟨left', rfl⟩ : ∃ left', left = left' + 1 := ⟨left - 1, by omega⟩
    refine ⟨left', ⟨hrun.toOpenBooks.stall _, hlast, ?_, fun column => mem_nonbasic_of_clip hnext⟩⟩
    dsimp only
    omega

/-! ## Crossing a breakpoint -/

omit [Scalar.OrdersNumbers α] in
/-- What enters the basis at a breakpoint was outside of it. -/
theorem KeptAt.enters_nonbasic {row : Fin m} {entering : Fin n} (h : run.KeptAt cfg k left b)
    (hexchange : run.tableau.Exchanges p cfg.tol b row entering) :
    entering ∈ run.tableau.nonbasic := by
  cases hexchange with
  | primal _ hchosen => exact Tableau.mem_nonbasic_of_entering hchosen
  | dual hcrossing _ => exact h.mem_nonbasic _ hcrossing

omit [Scalar.OrdersNumbers α] in
/-- A pivot is one of those that the last mark allows for. -/
theorem Crosses.kept (h : Crosses p cfg run b (.crossed run')) (hrun : run.KeptAt cfg (k + 1) left b) :
    run'.Kept cfg k left := by
  obtain ⟨last, hlast, hlevel⟩ := hrun.last
  have hpivots := hrun.pivots_eq
  cases h with
  | @exchanged row entering tableau hexchange hpivot =>
    have hdistinct := hrun.holdsDistinct.of_pivot (hrun.enters_nonbasic hexchange) hpivot
    refine ⟨⟨⟨hdistinct, hrun.capacity_eq, ?_, hrun.finite, ?_⟩, hrun.isFull_eq, hrun.above⟩, ?_,
      .inr hrun.left_eq⟩
    -- The pivot is taken from the budget and entered at the last mark.
    · rw [pivotLams_push, List.length_append, List.length_singleton]
      omega
    · rw [pivotLams_push]
      exact hrun.ledger.pivot hlast hlevel.symm
    · show Option.Rel Scalar.Level run.lams.getLast? (some b.lam)
      rw [Option.mem_def.1 hlast]
      exact .some hlevel

/-! ## Ends -/

omit [Scalar.OrdersNumbers α] in
/-- Pivots of an outcome are counted as in the books. -/
theorem pivotsAt_finish (run : Run α m n) (verdict : Verdict α n) (x : α) :
    (run.finish verdict).pivotsAt x = levelCount x run.pivotLams := by
  simp [Outcome.pivotsAt, levelCount, pivotLams, finish, List.countP_map, Function.comp_def]

/-- The books of a run that has ended make its outcome orderly, if the verdict agrees with them. -/
theorem Books.orderly (h : run.Books cfg k left) (hne : run.lams ≠ [])
    (hstart : verdict.status ≠ .infeasibleStart)
    (habove : ∀ x ∈ if verdict.status = .lambdaThreshold then run.lams.dropLast else run.lams,
      cfg.floor < x)
    (hended : verdict.status = .lambdaThreshold → run.lams.getLast? = some cfg.threshold)
    (hfull : verdict.status = .maxBreakpoints → run.recorder.isFull = true)
    (hexhausted : verdict.status = .maxIter → k = 0 ∧ 0 < left)
    (hcycling : verdict.status = .cycling → left = 0) : (run.finish verdict).Orderly cfg := by
  -- Lengths of the path and of the books are the same.
  have hpath : (run.finish verdict).path.length = run.lams.length := by simp [finish, lams]
  have hpivots : (run.finish verdict).pivots = run.pivotLams.length := by
    simp [finish, Outcome.pivots, pivotLams]
  have hsize : run.lams.length = run.recorder.marks.size := by simp [lams]
  have hroom := run.recorder.size_le
  have hmade := h.pivots_eq
  -- The ledger bounds pivots by marks and stalls.
  have hpaid := h.ledger.length_add_le
  exact {
    finite := h.finite
    decreasing := h.ledger.pairwise
    empty_iff := by
      refine ⟨fun hnil => absurd ?_ hne, fun hstatus => absurd hstatus hstart⟩
      rw [← List.length_eq_zero_iff, ← hpath, hnil]
      rfl
    above_floor := habove
    ended_iff := by
      refine ⟨fun hlast => ?_, hended⟩
      by_contra hstatus
      rw [if_neg (show ¬ verdict.status = .lambdaThreshold from hstatus)] at habove
      -- A last mark at the threshold would lie above the floor.
      have hlt := habove _ (List.mem_of_getLast? hlast)
      exact Scalar.not_le_of_lt hlt cfg.threshold_le_floor
    length_le := by
      rw [hpath, hsize, ← h.capacity_eq]
      exact hroom
    full := fun hstatus => by
      have hle : run.recorder.capacity ≤ run.recorder.marks.size :=
        of_decide_eq_true (hfull hstatus)
      rw [hpath, hsize, ← h.capacity_eq]
      exact le_antisymm hroom hle
    pivots_le := by omega
    exhausted := fun hstatus => by
      have hnone := (hexhausted hstatus).1
      omega
    unspent := fun hstatus => by
      have hleft := (hexhausted hstatus).2
      rw [hpivots, hpath]
      omega
    pivotsAt_le := fun x => by
      rw [pivotsAt_finish]
      exact h.ledger.levelCount_le x
    pivots_le_mul := by
      rw [hpivots, hpath]
      omega
    cycling := fun hstatus => by
      obtain ⟨last, hlast⟩ := Option.ne_none_iff_exists'.1 (mt List.getLast?_eq_none_iff.1 hne)
      -- No pivots are left at the last mark, so all that it allows for have been made.
      have hcount := h.ledger.levelCount_add_eq hlast
      rw [hcycling hstatus] at hcount
      exact ⟨last, hlast, (pivotsAt_finish _ _ _).trans hcount⟩
    basis_injective := h.holdsDistinct.injective }

/-- A run that stops on its way to a breakpoint has an orderly outcome. -/
theorem Approaches.orderly (h : Approaches cfg run (.stopped verdict run'))
    (hrun : run.Kept cfg k left) : (run'.finish verdict).Orderly cfg := by
  cases h with
  | @ended recorder hnext happend =>
    -- The mark at the threshold is the only one that need not lie above the floor.
    have hmarks := lams_of_append run.stalls happend
    have hbooks := hrun.toBooks.append cfg.threshold_finite run.stalls happend
    refine hbooks.orderly ?_ nofun ?_ (fun _ => ?_) nofun nofun nofun
    · simp [hmarks]
    · rw [hmarks, Verdict.status, if_pos rfl, List.dropLast_concat]
      exact hrun.above
    · rw [hmarks, List.getLast?_concat]
  | @full b recorder hnext hfloor happend hfull =>
    -- The path is full with the mark just taken, which lies above the floor like all others.
    have hmarks := lams_of_append 0 happend
    obtain ⟨-, hbooks, habove⟩ := hrun.append hnext hfloor happend
    refine hbooks.orderly ?_ nofun ?_ nofun (fun _ => hfull) nofun nofun
    · simp [hmarks]
    · rw [hmarks, Verdict.status, if_neg nofun]
      exact habove
  | @cycling b hnext hfloor hstall hcap =>
    -- The cap is reached, so no pivot is left at the last mark.
    obtain ⟨hleft, last, hlast, -⟩ := hrun.exists_last_of_stall hnext hstall
    refine (hrun.toOpenBooks.stall _).toBooks.orderly ?_ nofun ?_ nofun nofun nofun fun _ => ?_
    · exact List.ne_nil_of_mem (List.mem_of_getLast? hlast)
    · rw [Verdict.status, if_neg nofun]
      exact hrun.above
    · omega

omit [Scalar.OrdersNumbers α] in
/-- At a breakpoint there is a mark. -/
theorem KeptAt.ne_nil (h : run.KeptAt cfg k left b) : run.lams ≠ [] := by
  obtain ⟨last, hlast, -⟩ := h.last
  exact List.ne_nil_of_mem (List.mem_of_getLast? hlast)

/-- A run that stops at a breakpoint has an orderly outcome. -/
theorem Crosses.orderly (h : Crosses p cfg run b (.stopped verdict run'))
    (hrun : run.KeptAt cfg k left b) : (run'.finish verdict).Orderly cfg := by
  -- No exchange was made, and if it failed the rows hold distinct columns all the same.
  cases h with
  | infeasible => exact hrun.toBooks.orderly hrun.ne_nil nofun hrun.above nofun nofun nofun nofun
  | unbounded => exact hrun.toBooks.orderly hrun.ne_nil nofun hrun.above nofun nofun nofun nofun
  | @failed row entering cause hexchange hpivot =>
    have hswap := hrun.holdsDistinct.swap row (hrun.enters_nonbasic hexchange)
    have hbooks : Books cfg k (left + 1)
        { run with tableau := run.tableau.swap row entering } :=
      ⟨hswap, hrun.capacity_eq, hrun.pivots_eq, hrun.finite, hrun.ledger⟩
    exact hbooks.orderly hrun.ne_nil nofun hrun.above nofun nofun nofun nofun

/-! ## Whole runs -/

/-- A run that starts with its books kept has an orderly outcome. -/
theorem Traces.orderly (h : Traces p cfg k run o) (hrun : run.Kept cfg k left) : o.Orderly cfg := by
  -- The invariant alternates between its two forms, `Kept` and `KeptAt`.
  induction h generalizing left with
  | stopped happroach => exact happroach.orderly hrun
  | exhausted happroach =>
    obtain ⟨left', hat⟩ := happroach.keptAt hrun
    exact hat.toBooks.orderly hat.ne_nil nofun hat.above nofun nofun
      (fun _ => ⟨rfl, Nat.succ_pos left'⟩) nofun
  | halted happroach hcross =>
    obtain ⟨left', hat⟩ := happroach.keptAt hrun
    exact hcross.orderly hat
  | crossed happroach hcross _ ih =>
    obtain ⟨left', hat⟩ := happroach.keptAt hrun
    exact ih (hcross.kept hat)

end Run

/-- A start that is refused leaves nothing behind but its basis. -/
theorem Outcome.Orderly.of_refused {cfg : Config α} {o : Outcome α m n}
    (hstatus : o.status = .infeasibleStart) (hpath : o.path = [])
    (hexchanges : o.exchanges = []) (hbasis : Function.Injective (ParametricLP.entries o.basis)) :
    o.Orderly cfg where
  finite := by simp [lams, hpath]
  decreasing := by simp [lams, hpath]
  empty_iff := by simp [hpath, hstatus]
  above_floor := by simp [lams, hpath]
  ended_iff := by simp [lams, hpath, hstatus]
  length_le := by simp [hpath]
  full := by simp [hstatus]
  pivots_le := by simp [pivots, hexchanges]
  exhausted := by simp [hstatus]
  unspent := by simp [hstatus]
  pivotsAt_le := by simp [pivotsAt, hexchanges]
  pivots_le_mul := by simp [pivots, hexchanges]
  cycling := by simp [hstatus]
  basis_injective := hbasis

open Scalar.RoundsInOrder Scalar.OrdersNumbers in
/-- No `lam` is recorded below the threshold. -/
theorem Outcome.Orderly.threshold_le [Scalar.OrdersNumbers α] {cfg : Config α} {o : Outcome α m n}
    (h : o.Orderly cfg) {lam : α} (hlam : lam ∈ o.lams) : cfg.threshold ≤ lam := by
  have habove := h.above_floor
  by_cases hstatus : o.status = .lambdaThreshold
  · -- Only the last mark may lie at or below the floor, and then it is the threshold itself.
    obtain ⟨rest, hrest⟩ := List.getLast?_eq_some_iff.1 (h.ended_iff.2 hstatus)
    rw [if_pos hstatus, hrest, List.dropLast_concat] at habove
    rw [hrest, List.mem_append, List.mem_singleton] at hlam
    rcases hlam with hlam | rfl
    · exact le_trans cfg.threshold_le_floor (le_of_lt (habove lam hlam))
    · exact le_self_of_isFinite cfg.threshold_finite
  · rw [if_neg hstatus] at habove
    exact le_trans cfg.threshold_le_floor (le_of_lt (habove lam hlam))

/-- Every outcome is orderly, whether its start was refused or not. -/
theorem Solves.orderly [Scalar.OrdersNumbers α] {p : Instance α m n} {cfg : Config α}
    {o : Outcome α m n} (h : Solves p cfg o) : o.Orderly cfg := by
  cases h with
  | singular => exact .of_refused rfl rfl rfl fun i j => p.basis_injective i j
  | refused hstart hfault =>
    exact .of_refused (Tableau.status_of_startFault? hfault) rfl rfl
      (Tableau.holdsDistinct_of_start hstart).injective
  | traced hstart _ htrace => exact htrace.orderly (Run.kept_start hstart)

end ParametricLP
