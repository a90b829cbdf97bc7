import Mathlib
import ParametricLP.Trace.Report
import ParametricLP.Proofs.Run.Exact

/-!
# What a path says about the problem

With a tolerance that is small enough for the problem, every solution on the path is optimal, and
every recorded basis is optimal on the whole segment that it is recorded for: from its own `lam` up
to the one before, and without bound for the first. A run that stops as infeasible or unbounded tells
the truth about all `lam` below the last one recorded.

## Key results

- `exists_tol_path_optimal`: entries and segments of a path are optimal
- `exists_tol_verdict_true`: verdicts about the problem hold below the end of the path
-/

namespace ParametricLP

variable {m n : ℕ} {p : Instance ℚ m n}

/-- At `lam` the solution of a tableau costs least and its multipliers are worth most. -/
structure Instance.SolvedBy (p : Instance ℚ m n) (t : Tableau ℚ m n) (lam : ℚ) : Prop where
  isOptimalPair : p.IsOptimalPair lam (t.primal lam) (t.dual lam)
  minimises : p.Minimises lam (t.primal lam)
  maximises : p.Maximises lam (t.dual lam)

/-- A basis that is optimal at `lam` solves both problems there. -/
theorem Tableau.Valid.solvedBy {t : Tableau ℚ m n} {lam : ℚ} (ht : t.Valid p)
    (h : t.OptimalAt lam) : p.SolvedBy t lam := by
  have hpair := ht.isOptimalPair_iff.2 h
  exact ⟨hpair, hpair.minimises, hpair.maximises⟩

/-! ## Segments -/

/-- For all small tolerances every entry of the path is optimal, and the bases held there are optimal
    on segments that meet end to end. -/
theorem exists_tol_path_optimal (p : Instance ℚ m n) (cfg : Config ℚ) :
    ∃ tol₀, 0 < tol₀ ∧ ∀ tol (htol : 0 < tol), tol ≤ tol₀ →
      ∃ o, solve p (cfg.withTol tol htol) = .ok o ∧
        (∀ e ∈ o.entries, p.IsOptimalPair e.lam e.x e.y) ∧
        (∀ a ∈ o.path.head?, ∀ lam, a.lam ≤ lam → p.SolvedBy a.held lam) ∧
        o.path.IsChain fun b a => ∀ lam, a.lam ≤ lam → lam ≤ b.lam → p.SolvedBy a.held lam := by
  obtain ⟨tol₀, hpos, h⟩ := exists_tol_exact p cfg
  -- The bound on the tolerances is the one below which a run decides as without a tolerance.
  refine ⟨tol₀, hpos, fun tol htol hle => ?_⟩
  obtain ⟨o, hsolve, hsolves, hexact⟩ := h tol htol hle
  have hvalid := hsolves.validPath.valid
  refine ⟨o, hsolve, fun e he => ?_, fun a ha lam hlam => ?_, ?_⟩
  · obtain ⟨a, ha, rfl⟩ := List.mem_map.1 he
    exact (hvalid a ha).isOptimalPair_iff.2 (hexact.covers.optimalAt a ha)
  · exact (hvalid a (List.mem_of_head? ha)).solvedBy (hexact.covers.first a ha lam hlam)
  -- Each basis covers the segment between its own mark and the one before.
  · refine hexact.covers.next.imp_of_mem_imp fun b a _ ha hsegment lam hlam hle => ?_
    exact (hvalid a ha).solvedBy (hsegment lam hlam hle)

/-! ## Verdicts about the problem -/

/-- An outcome is infeasible by one verdict only. -/
theorem Verdict.exists_of_status_infeasible {v : Verdict ℚ n} (h : v.status = .infeasible) :
    ∃ lam column, v = .infeasible lam column := by
  cases v with
  | infeasible lam column => exact ⟨lam, column, rfl⟩
  | _ => exact nomatch h

/-- An outcome is unbounded by one verdict only. -/
theorem Verdict.exists_of_status_unbounded {v : Verdict ℚ n} (h : v.status = .unbounded) :
    ∃ lam column, v = .unbounded lam column := by
  cases v with
  | unbounded lam column => exact ⟨lam, column, rfl⟩
  | _ => exact nomatch h

/-- For all small tolerances a problem found infeasible has no feasible solution below the last `lam`
    recorded, and one found unbounded has neither dual feasible multipliers nor an optimum there. -/
theorem exists_tol_verdict_true (p : Instance ℚ m n) (cfg : Config ℚ) :
    ∃ tol₀, 0 < tol₀ ∧ ∀ tol (htol : 0 < tol), tol ≤ tol₀ →
      ∃ o, solve p (cfg.withTol tol htol) = .ok o ∧
        (o.status = .infeasible → ∃ lam, o.lams.getLast? = some lam ∧
          ∀ lam' < lam, ∀ x, ¬ p.Feasible lam' x) ∧
        (o.status = .unbounded → ∃ lam, o.lams.getLast? = some lam ∧
          ∀ lam' < lam, (∀ y, ¬ p.DualFeasible lam' y) ∧ ∀ x, ¬ p.Minimises lam' x) := by
  obtain ⟨tol₀, hpos, h⟩ := exists_tol_exact p cfg
  refine ⟨tol₀, hpos, fun tol htol hle => ?_⟩
  obtain ⟨o, hsolve, -, hexact⟩ := h tol htol hle
  refine ⟨o, hsolve, fun hstatus => ?_, fun hstatus => ?_⟩
  · -- The verdict carries its certificate, a row that cannot be satisfied.
    obtain ⟨lam, column, hverdict⟩ := Verdict.exists_of_status_infeasible hstatus
    exact ⟨lam, hexact.infeasible lam column hverdict⟩
  · -- Here the certificate is a ray.
    obtain ⟨lam, column, hverdict⟩ := Verdict.exists_of_status_unbounded hstatus
    exact ⟨lam, hexact.unbounded lam column hverdict⟩

end ParametricLP
