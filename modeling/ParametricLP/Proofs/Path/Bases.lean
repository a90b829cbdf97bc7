import Mathlib
import ParametricLP.Proofs.Run.Budget
import ParametricLP.Proofs.Run.Exact

/-!
# No basis is recorded twice

The set of columns held decides where a basis is optimal, and a path goes on only where the basis in
hand stops being optimal. With a small tolerance the bases along a path are therefore distinct sets
of `m` out of `n` columns, so there are at most `n.choose m` entries. Budgets beyond that are never
used up: each entry pays for as many pivots as one `lam` may see.

## Key results

- `ValidPath.columns_nodup`: the sets of columns along a path are distinct
- `exists_tol_bases_distinct`: what that means for the length of a path and for its budgets
-/

namespace ParametricLP

variable {m n : ℕ} {p : Instance ℚ m n}

namespace Tableau

variable {t t' : Tableau ℚ m n}

/-- The set of columns held. -/
def columns (t : Tableau ℚ m n) : Finset (Fin n) :=
  Finset.univ.image (entries t.basis)

/-- The columns in the set are those of the basis. -/
theorem mem_columns_iff {j : Fin n} : j ∈ t.columns ↔ j ∈ t.basis := by
  unfold columns
  rw [Finset.mem_image, mem_iff_exists_entries]
  simp only [Finset.mem_univ, true_and]

/-- As a basis holds distinct columns, there are as many as rows. -/
theorem Valid.card_columns (ht : t.Valid p) : t.columns.card = m := by
  unfold columns
  rw [Finset.card_image_of_injective _ ht.basis_injective, Finset.card_univ, Fintype.card_fin]

/-- A basis of the same columns is optimal at the same places. -/
theorem Valid.optimalAt_of_columns_eq (ht : t.Valid p) (ht' : t'.Valid p)
    (h : t.columns = t'.columns) {lam : ℚ} (hopt : t'.OptimalAt lam) : t.OptimalAt lam := by
  refine (ht.optimalAt_congr ht' fun j => ?_).1 hopt
  rw [← mem_columns_iff, h, mem_columns_iff]

end Tableau

/-! ## Distinct bases -/

namespace ValidPath

variable {path : List (Mark ℚ (Tableau ℚ m n))}

/-- No set of columns is recorded twice on a path that goes on only where it has to. -/
theorem columns_nodup (hpath : ValidPath p path) (hcovers : Covers path) :
    (path.map fun a => a.held.columns).Nodup := by
  refine List.pairwise_map.2 (hcovers.past.imp_of_mem fun {b a} hb ha hpast heq => hpast ?_)
  -- An equal set of columns would still be optimal.
  exact (hpath.valid b hb).optimalAt_of_columns_eq (hpath.valid a ha) heq (hcovers.optimalAt a ha)

/-- Such a path has no more entries than there are bases. -/
theorem length_le (hpath : ValidPath p path) (hcovers : Covers path) :
    path.length ≤ n.choose m := by
  -- Every set recorded has `m` of the `n` columns.
  have hsubset : (path.map fun a => a.held.columns).toFinset ⊆
      (Finset.univ : Finset (Fin n)).powersetCard m := by
    intro s hs
    obtain ⟨a, ha, rfl⟩ := List.mem_map.1 (List.mem_toFinset.1 hs)
    exact Finset.mem_powersetCard.2 ⟨Finset.subset_univ _, (hpath.valid a ha).card_columns⟩
  have hcard := Finset.card_le_card hsubset
  rw [List.toFinset_card_of_nodup (hpath.columns_nodup hcovers), List.length_map,
    Finset.card_powersetCard, Finset.card_univ, Fintype.card_fin] at hcard
  exact hcard

end ValidPath

/-! ## Budgets -/

/-- How a run ends whose budgets allow for every basis: at the threshold, or for a reason that is not
    a budget for breakpoints or pivots. -/
theorem Outcome.WithinBudget.status_of_length_le {cfg : Config ℚ} {o : Outcome ℚ m n}
    (h : o.WithinBudget cfg) {bases : ℕ} (hlength : o.path.length ≤ bases)
    (hbreakpoints : bases < cfg.maxBreakpoints)
    (hpivots : (cfg.stallCap m n + 1) * bases ≤ cfg.maxPivots) :
    o.status = .lambdaThreshold ∧ o.lams.getLast? = some cfg.threshold ∨
      o.status ∈ [.infeasibleStart, .infeasible, .unbounded, .cycling, .numericalError] := by
  cases hstatus : o.status with
  | lambdaThreshold => exact .inl ⟨rfl, h.ended hstatus⟩
  | maxBreakpoints =>
    -- A full path would have more marks than there are bases.
    have hfull := h.full hstatus
    omega
  | maxIter =>
    -- That many marks do not pay for all the pivots.
    have hused := h.exhausted hstatus
    have hcovered := Nat.mul_le_mul_left (cfg.stallCap m n + 1) hlength
    omega
  | _ => exact .inr (by decide)

/-- For all small tolerances the sets of columns along the path are distinct, so a path has at most
    `n.choose m` entries, and larger budgets for breakpoints and pivots are never used up. -/
theorem exists_tol_bases_distinct (p : Instance ℚ m n) (cfg : Config ℚ) :
    ∃ tol₀, 0 < tol₀ ∧ ∀ tol (htol : 0 < tol), tol ≤ tol₀ →
      ∃ o, solve p (cfg.withTol tol htol) = .ok o ∧
        (o.path.map fun a => a.held.columns).Nodup ∧
        o.path.length ≤ n.choose m ∧
        (n.choose m < cfg.maxBreakpoints →
          (cfg.stallCap m n + 1) * n.choose m ≤ cfg.maxPivots →
            o.status = .lambdaThreshold ∧ o.lams.getLast? = some cfg.threshold ∨
              o.status ∈ [.infeasibleStart, .infeasible, .unbounded, .cycling,
                .numericalError]) := by
  obtain ⟨tol₀, hpos, h⟩ := exists_tol_exact p cfg
  refine ⟨tol₀, hpos, fun tol htol hle => ?_⟩
  obtain ⟨o, hsolve, hsolves, hexact⟩ := h tol htol hle
  -- Up to a bound tolerances resolve all decisions, and the path covers its segments.
  have hpath := hsolves.validPath
  have hlength := hpath.length_le hexact.covers
  refine ⟨o, hsolve, hpath.columns_nodup hexact.covers, hlength, fun hbreakpoints hpivots => ?_⟩
  exact hsolves.withinBudget.status_of_length_le hlength hbreakpoints hpivots

end ParametricLP
