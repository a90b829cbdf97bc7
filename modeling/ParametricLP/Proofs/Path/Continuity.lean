import Mathlib
import ParametricLP.Proofs.Run.Pivots

/-!
# The objective along a path

A path shows a solution at every `lam` down to its end, that of the first basis recorded there or
below. Between two marks the cost of this solution is a polynomial in `lam`. At a mark one basis
takes over from another, by pivots that were all made there, and each of them keeps the objective
unless its crossing was clipped. So the cost is continuous at every mark but the last, unless a
crossing was clipped to it.

## Key results

- `Run.Unrolls.isChain_meets`: recorded bases have the same objective where one takes over
- `pivots_keep_objective`: what a pivot keeps, and that the objective is continuous
-/

namespace ParametricLP

open Filter Topology Matrix

variable {m n : ℕ} {p : Instance ℚ m n} {cfg : Config ℚ} {lam : ℚ}

/-! ## Where one basis takes over -/

namespace Instance

/-- The tableau has the objective of the one recorded, there where no crossing was clipped. -/
def Meets (p : Instance ℚ m n) (cfg : Config ℚ) (a : Mark ℚ (Tableau ℚ m n)) (t : Tableau ℚ m n) :
    Prop :=
  p.Unclipped cfg a.lam →
    p.objective a.lam (t.primal a.lam) = p.objective a.lam (a.held.primal a.lam)

end Instance

namespace Run

variable {run run' run'' : Run ℚ m n} {b : Breakpoint ℚ m n} {k : ℕ} {o : Outcome ℚ m n}

/-- Each basis recorded meets the next one, and the last one the basis in hand. -/
structure Joined (p : Instance ℚ m n) (cfg : Config ℚ) (run : Run ℚ m n) : Prop where
  marks : run.recorder.marks.toList.IsChain fun a a' => p.Meets cfg a a'.held
  tableau : ∀ a ∈ run.recorder.marks.toList.getLast?, p.Meets cfg a run.tableau

/-- Recording the basis in hand joins it to the one recorded last. -/
theorem Joined.append (h : run.Joined p cfg) {recorder : Recorder ℚ (Tableau ℚ m n)}
    (happend : run.recorder.append lam run.tableau = .ok (some recorder)) (stalls : ℕ) :
    Joined p cfg { run with recorder, stalls } := by
  have hmarks : recorder.marks.toList = run.recorder.marks.toList ++ [⟨lam, run.tableau⟩] := by
    rw [(Recorder.append_eq_ok_some happend).1, Array.toList_push]
  constructor
  · dsimp only
    rw [hmarks, List.isChain_append]
    -- The new mark follows the one that was last, and holds the basis in hand.
    refine ⟨h.marks, .singleton _, fun a ha a' ha' => ?_⟩
    obtain rfl := Option.some.inj ha'
    exact h.tableau a ha
  · intro a ha _
    dsimp only at ha
    rw [hmarks, List.getLast?_concat] at ha
    obtain rfl := Option.some.inj ha
    rfl

/-- On its way a run records the basis that it has in hand. -/
theorem Joined.approach (h : run.Joined p cfg) {progress : Progress ℚ m n}
    (happroach : Approaches cfg run progress) : progress.run.Joined p cfg := by
  cases happroach with
  | ended _ happend => exact h.append happend _
  | full _ _ happend => exact h.append happend _
  | moved _ _ happend => exact h.append happend _
  | cycling => exact ⟨h.marks, h.tableau⟩
  | stalled => exact ⟨h.marks, h.tableau⟩

/-- A pivot is made where the last basis was recorded, and keeps its objective there. -/
theorem Joined.cross (h : run.Joined p cfg) (hlast : run.recorder.last? = some lam)
    {found : Breakpoint ℚ m n} (hpivots : p.Pivots cfg found lam run.tableau run'.tableau)
    (hrecorder : run'.recorder = run.recorder) : run'.Joined p cfg := by
  constructor
  · rw [hrecorder]
    exact h.marks
  · rw [hrecorder]
    intro a ha hunclipped
    rw [last?_eq_map_getLast?, ha] at hlast
    obtain rfl := Option.some.inj hlast
    -- The basis held before the pivot meets the last mark already.
    rw [← h.tableau a ha hunclipped]
    exact hpivots.objective_eq (hunclipped _ _ _ hpivots)

/-- At its start a run has recorded nothing that could fail to meet. -/
theorem joined_start (t : Tableau ℚ m n) : (start cfg t).Joined p cfg :=
  ⟨.nil, nofun⟩

/-- The bases on the path of a run meet. -/
theorem Unrolls.isChain_meets (h : Unrolls p cfg k run o) (hpass : p.Passes cfg k run)
    (hrun : run.Joined p cfg) : o.path.IsChain fun a a' => p.Meets cfg a a'.held := by
  induction h with
  | stopped happroach => exact (hrun.approach (hpass.approaches happroach)).marks
  | exhausted happroach => exact (hrun.approach (hpass.approaches happroach)).marks
  -- A run that ends at a pivot keeps the marks of its way there.
  | halted happroach hcross =>
    have hmarks := (hrun.approach (hpass.approaches happroach)).marks
    rw [Progress.run, ← (crosses_of_cross hcross).recorder_eq] at hmarks
    exact hmarks
  | @crossed k run b run' run'' o happroach hcross _ ih =>
    have happroaches := hpass.approaches happroach
    have htableau : run'.tableau = run.tableau := tableau_of_approach happroach
    obtain ⟨found, hpivots⟩ := hpass.exists_pivots happroach hcross
    rw [← htableau] at hpivots
    -- After its way to a breakpoint the run has recorded the basis in hand there.
    have hopen := happroaches.recorder_open hpass.recorder_open
    have hjoined := (hrun.approach happroaches).cross hopen.last?_eq hpivots
      (crosses_of_cross hcross).recorder_eq
    exact ih (hpass.crossed happroach hcross) hjoined

end Run

/-- On the path of every run recorded bases meet. -/
theorem isChain_meets_of_solve {o : Outcome ℚ m n} (h : solve p cfg = .ok o) :
    o.path.IsChain fun a a' => p.Meets cfg a a'.held := by
  rcases unrolls_of_solve h with hnil | ⟨t, hpass, hunrolls⟩
  · rw [hnil.1]
    exact .nil
  · exact hunrolls.isChain_meets hpass (Run.joined_start t)

/-! ## The cost along a path -/

namespace Instance

/-- The cost at `lam` of the solution that a path shows there: that of the first basis recorded at
    `lam` or below. -/
def costAlong (p : Instance ℚ m n) : List (Mark ℚ (Tableau ℚ m n)) → ℚ → ℚ
  | [], _ => 0
  | a :: rest, lam =>
    if a.lam ≤ lam then p.objective lam (a.held.primal lam) else p.costAlong rest lam

/-- The cost of the solution of one basis is a polynomial. -/
theorem continuous_objective (p : Instance ℚ m n) (t : Tableau ℚ m n) :
    Continuous fun lam => p.objective lam (t.primal lam) := by
  -- A basic variable has the value of its row, any other one is zero.
  have hprimal (j : Fin n) : Continuous fun lam => entries (t.primal lam) j := by
    unfold Tableau.primal
    simp only [entries_ofFn]
    cases t.holder? j with
    | some i => exact (t.values.get i).continuous_value
    | none => exact continuous_const
  unfold objective
  simp only [dot_eq_dotProduct, dotProduct, AffineVector.entries_value]
  exact continuous_finsetSum _ fun j _ => (p.cost.get j).continuous_value.mul (hprimal j)

/-- Where two bases meet, the cost is continuous. -/
theorem continuousAt_costAlong_head {a a' : Mark ℚ (Tableau ℚ m n)}
    {rest : List (Mark ℚ (Tableau ℚ m n))} (hlt : a'.lam < a.lam)
    (hmeets : p.objective a.lam (a'.held.primal a.lam) = p.objective a.lam (a.held.primal a.lam)) :
    ContinuousAt (p.costAlong (a :: a' :: rest)) a.lam := by
  -- Glued together, two continuous functions are continuous if they agree where they meet.
  have hglued : Continuous fun lam => if a.lam ≤ lam then p.objective lam (a.held.primal lam)
      else p.objective lam (a'.held.primal lam) := by
    refine Continuous.if_le (p.continuous_objective _) (p.continuous_objective _) continuous_const
      continuous_id fun lam hlam => ?_
    obtain rfl : a.lam = lam := hlam
    exact hmeets.symm
  -- Above the next mark the path shows these two bases only.
  refine hglued.continuousAt.congr ?_
  filter_upwards [lt_mem_nhds hlt] with lam hlam
  rw [costAlong, costAlong, if_pos hlam.le]

/-- The cost is continuous at a mark to which no crossing was clipped, unless it is the last. -/
theorem continuousAt_costAlong {path : List (Mark ℚ (Tableau ℚ m n))}
    (hdecreasing : path.Pairwise fun b a => a.lam < b.lam)
    (hchain : path.IsChain fun a a' => p.Meets cfg a a'.held) {a : Mark ℚ (Tableau ℚ m n)}
    (ha : a ∈ path.dropLast) (hunclipped : p.Unclipped cfg a.lam) :
    ContinuousAt (p.costAlong path) a.lam := by
  -- The induction goes down the path; only the first two marks matter near the first.
  induction path with
  | nil => exact nomatch ha
  | cons b rest ih =>
    cases rest with
    | nil => exact nomatch ha
    | cons a' rest =>
      rw [List.dropLast_cons_cons, List.mem_cons] at ha
      rcases ha with rfl | ha
      · exact continuousAt_costAlong_head (List.rel_of_pairwise_cons hdecreasing List.mem_cons_self)
          ((List.isChain_cons_cons.1 hchain).1 hunclipped)
      · -- The first basis is not shown near a later mark.
        have hlt := List.rel_of_pairwise_cons hdecreasing (List.dropLast_subset _ ha)
        refine (ih hdecreasing.of_cons hchain.tail ha).congr ?_
        filter_upwards [gt_mem_nhds hlt] with lam hlam
        exact (if_neg (not_le.2 hlam)).symm

end Instance

/-- A pivot whose crossing was not clipped leaves the solution alone where a basic value crosses,
    the multipliers where a reduced cost does, and the objective in both cases. So along the path of
    any run the cost is continuous at each mark but the last, unless a crossing was clipped to it. -/
theorem pivots_keep_objective (p : Instance ℚ m n) (cfg : Config ℚ) :
    (∀ found lam t t', p.Pivots cfg found lam t t' → found.lam = lam →
      (∀ row, found.crossing = .primal row → t'.primal lam = t.primal lam) ∧
      (∀ column, found.crossing = .dual column → t'.dual lam = t.dual lam) ∧
      p.objective lam (t'.primal lam) = p.objective lam (t.primal lam)) ∧
    ∃ o, solve p cfg = .ok o ∧ ∀ a ∈ o.path.dropLast, p.Unclipped cfg a.lam →
      ContinuousAt (p.costAlong o.path) a.lam := by
  constructor
  · intro found lam t t' hpivots hlam
    exact ⟨fun row => hpivots.primal_eq hlam, fun column => hpivots.dual_eq hlam,
      hpivots.objective_eq hlam⟩
  · obtain ⟨o, hsolve, hsolves⟩ := exists_solves p cfg
    exact ⟨o, hsolve, fun a ha => Instance.continuousAt_costAlong hsolves.validPath.decreasing
      (isChain_meets_of_solve hsolve) ha⟩

/-- With one pivot allowed, the second column replaces the first at `3`. -/
theorem pivots_keep_objective_threeSegments : ∃ found t t' o,
    threeSegments.Pivots (budgets 1 4 0) found 3 t t' ∧ t'.dual 3 = t.dual 3 ∧
      threeSegments.objective 3 (t'.primal 3) = threeSegments.objective 3 (t.primal 3) ∧
      solve threeSegments (budgets 1 4 0) = .ok o ∧ o.lams = [3, 1] ∧
      ContinuousAt (threeSegments.costAlong o.path) 3 := by
  obtain ⟨hpivot, o, hsolve, hcontinuous⟩ := pivots_keep_objective threeSegments (budgets 1 4 0)
  have hunclipped (lam : ℚ) : threeSegments.Unclipped (budgets 1 4 0) lam :=
    threeSegments.unclipped_of_maxPivots_le_one le_rfl lam
  have hrun : (solve threeSegments (budgets 1 4 0)).toOption.map (fun o =>
      (o.lams, o.exchanges.map fun e => (e.lam, e.crossing))) = some ([3, 1], [(3, .dual 1)]) := by
    decide +kernel
  -- With no more than one pivot no crossing is ever clipped.
  rw [hsolve] at hrun
  obtain ⟨hlams, hexchanges⟩ := Prod.mk.inj (Option.some.inj hrun)
  obtain ⟨e, he, hcrossed⟩ : ∃ e ∈ o.exchanges, (e.lam, e.crossing) = (3, .dual 1) :=
    List.mem_map.1 (by rw [hexchanges]; exact List.mem_singleton_self _)
  obtain ⟨hlam, hcrossing⟩ := Prod.mk.inj hcrossed
  obtain ⟨found, t, t', hpivots, hfound⟩ := exists_pivots_of_mem_exchanges hsolve he
  rw [hlam] at hpivots
  obtain ⟨-, hdual, hobjective⟩ := hpivot found 3 t t' hpivots (hunclipped 3 _ _ _ hpivots)
  -- The mark at `3` is not the last one.
  have hmem : 3 ∈ o.path.dropLast.map (·.lam) := by
    rw [List.map_dropLast]
    show 3 ∈ o.lams.dropLast
    rw [hlams]
    exact List.mem_singleton_self 3
  obtain ⟨a, ha, hlast⟩ := List.mem_map.1 hmem
  have hcontinuousAt := hcontinuous a ha (hunclipped _)
  rw [hlast] at hcontinuousAt
  exact ⟨found, t, t', o, hpivots, hdual 1 (hfound.trans hcrossing), hobjective, hsolve, hlams,
    hcontinuousAt⟩

end ParametricLP
