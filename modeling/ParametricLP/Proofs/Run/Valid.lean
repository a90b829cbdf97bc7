import Mathlib
import ParametricLP.Proofs.Run.Steps

/-!
# Every tableau of a run is valid

Whatever the tolerance is, the entry that a pivot is made on is not zero: the ratio tests ask for a
clearly negative or a clearly positive one. So the tableau in hand stays valid, and so are those that
have been recorded, at strictly decreasing values of `lam`.

## Key results

- `Run.Approaches.valid`, `Run.Crosses.valid`: the invariant is kept by both kinds of step
- `Solves.validPath`: what the path of an outcome holds
-/

namespace ParametricLP

variable {m n : ℕ} {p : Instance ℚ m n} {cfg : Config ℚ}

/-- The tableaus of a path are valid, and its `lam` decrease. -/
structure ValidPath (p : Instance ℚ m n) (path : List (Mark ℚ (Tableau ℚ m n))) : Prop where
  valid : ∀ a ∈ path, a.held.Valid p
  decreasing : path.Pairwise fun b a => a.lam < b.lam

namespace ValidPath

variable {path : List (Mark ℚ (Tableau ℚ m n))} {a : Mark ℚ (Tableau ℚ m n)}

/-- An empty path holds nothing that could be invalid. -/
theorem nil : ValidPath p [] :=
  ⟨nofun, .nil⟩

/-- A valid tableau may be recorded below the last mark. -/
theorem append (h : ValidPath p path) (hvalid : a.held.Valid p)
    (hbelow : ∀ last ∈ path.getLast?, a.lam < last.lam) : ValidPath p (path ++ [a]) := by
  constructor
  · intro b hb
    rcases List.mem_append.1 hb with hb | hb
    · exact h.valid b hb
    · rwa [List.mem_singleton.1 hb]
  · refine List.pairwise_append.2 ⟨h.decreasing, List.pairwise_singleton _ _, fun b hb c hc => ?_⟩
    rw [List.mem_singleton.1 hc]
    -- Either `b` is the last mark itself, or the last mark lies below it.
    obtain ⟨last, hlast⟩ := Option.ne_none_iff_exists'.1
      (mt List.getLast?_eq_none_iff.1 (List.ne_nil_of_mem hb))
    have hlt := hbelow last hlast
    obtain ⟨rest, rfl⟩ := List.getLast?_eq_some_iff.1 hlast
    rcases List.mem_append.1 hb with hb | hb
    · have hpast := (List.pairwise_append.1 h.decreasing).2.2
      exact hlt.trans (hpast b hb last (List.mem_singleton_self last))
    · rwa [List.mem_singleton.1 hb]

end ValidPath

/-- The entry of a pivot is not zero. -/
theorem Tableau.Exchanges.entry_ne_zero {t : Tableau ℚ m n} {tol : ℚ} {b : Breakpoint ℚ m n}
    {row : Fin m} {entering : Fin n} (h : t.Exchanges p tol b row entering) (ht : t.Valid p)
    (htol : 0 ≤ tol) : (t.column p entering)[row] ≠ 0 := by
  cases h with
  | primal _ hchosen => exact (ht.entering_spec htol hchosen).2.ne
  | dual _ hchosen => exact (Tableau.leaving_spec htol hchosen).ne'

namespace Run

variable {run run' : Run ℚ m n} {b : Breakpoint ℚ m n} {k : ℕ}

/-- The tableau in hand and those recorded are valid. -/
structure Valid (p : Instance ℚ m n) (run : Run ℚ m n) : Prop where
  tableau : run.tableau.Valid p
  path : ValidPath p run.recorder.marks.toList

/-- The last mark taken is the last of the marks. -/
theorem last?_eq_map_getLast? :
    run.recorder.last? = run.recorder.marks.toList.getLast?.map (·.lam) := by
  rw [Recorder.last?, Array.getLast?_toList]

/-- Recording the tableau in hand keeps the path valid. -/
theorem Valid.append (h : run.Valid p) {lam : ℚ} {recorder : Recorder ℚ (Tableau ℚ m n)}
    (happend : run.recorder.append lam run.tableau = .ok (some recorder)) :
    ValidPath p recorder.marks.toList := by
  obtain ⟨hmarks, -, hbelow⟩ := Recorder.append_eq_ok_some happend
  rw [hmarks, Array.toList_push]
  refine h.path.append h.tableau fun last hlast => ?_
  rw [last?_eq_map_getLast?, hlast] at hbelow
  exact isBelow_some_iff.1 hbelow

/-- The way to a breakpoint keeps all tableaus valid. -/
theorem Approaches.valid {progress : Progress ℚ m n} (h : Approaches cfg run progress)
    (hrun : run.Valid p) : progress.run.Valid p := by
  cases h with
  -- Where a mark is taken it holds the tableau in hand, which is valid.
  | ended _ happend => exact ⟨hrun.tableau, hrun.append happend⟩
  | full _ _ happend => exact ⟨hrun.tableau, hrun.append happend⟩
  | moved _ _ happend => exact ⟨hrun.tableau, hrun.append happend⟩
  | cycling => exact ⟨hrun.tableau, hrun.path⟩
  | stalled => exact ⟨hrun.tableau, hrun.path⟩

/-- Crossing a breakpoint leaves the recorder alone. -/
theorem Crosses.recorder_eq {pivoted : Pivoted ℚ m n} (h : Crosses p cfg run b pivoted) :
    pivoted.run.recorder = run.recorder := by
  cases h with
  | _ => rfl

/-- A pivot keeps all tableaus valid. -/
theorem Crosses.valid (h : Crosses p cfg run b (.crossed run')) (hrun : run.Valid p) :
    run'.Valid p := by
  cases h with
  | exchanged hexchange hpivot =>
    -- The inverse can be corrected because the entry of the pivot is not zero.
    have hentry := hexchange.entry_ne_zero hrun.tableau cfg.tol_pos.le
    exact ⟨Tableau.valid_of_pivot hrun.tableau hentry hpivot, hrun.path⟩

/-- The path that a run leaves behind is valid. -/
theorem Traces.validPath {o : Outcome ℚ m n} (h : Traces p cfg k run o) (hrun : run.Valid p) :
    ValidPath p o.path := by
  induction h with
  | stopped happroach => exact (happroach.valid hrun).path
  | exhausted happroach => exact (happroach.valid hrun).path
  | halted happroach hcross =>
    have hpath := (happroach.valid hrun).path
    rw [Progress.run, ← hcross.recorder_eq] at hpath
    exact hpath
  | crossed happroach hcross _ ih => exact ih (hcross.valid (happroach.valid hrun))

/-- At its start a run is valid. -/
theorem valid_start (cfg : Config ℚ) {t : Tableau ℚ m n} (h : Tableau.start p = .ok t) :
    (start cfg t).Valid p :=
  ⟨(Tableau.valid_of_start h).1, .nil⟩

end Run

/-- Every tableau on the path of an outcome is valid. -/
theorem Solves.validPath {o : Outcome ℚ m n} (h : Solves p cfg o) : ValidPath p o.path := by
  cases h with
  | singular => exact .nil
  | refused => exact .nil
  | traced hstart _ htrace => exact htrace.validPath (Run.valid_start cfg hstart)

end ParametricLP
