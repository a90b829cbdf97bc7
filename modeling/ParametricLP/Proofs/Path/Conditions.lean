import Mathlib
import ParametricLP.Trace.Report
import ParametricLP.Proofs.Gap
import ParametricLP.Proofs.Residuals
import ParametricLP.Proofs.Tableau.Reachable
import ParametricLP.Proofs.Run.Valid

/-!
# What the diagnostic finds in a tableau

The diagnostic evaluates the four optimality conditions from the data of the problem, a tableau
keeps its values and reduced costs by itself. On a tableau that pivots have reached the two agree at
every `lam`, at breakpoints or not: the equations and complementary slackness hold exactly, and what
is violated otherwise is as negative as the smallest basic value and the smallest reduced cost are.

## Key results

- `Tableau.Valid.residuals_eq`: the residuals of a valid tableau, read off its signs
- `residuals_of_reachable`: so for every tableau reached, and the equations on every path
-/

namespace ParametricLP

variable {m n : ℕ} {p : Instance ℚ m n}

/-! ## The residuals of a tableau -/

namespace Tableau

variable {t : Tableau ℚ m n} {lam low lowReduced : ℚ}

/-- A valid tableau violates signs only, and these by as much as its smallest value and its smallest
    reduced cost do. -/
theorem Valid.residuals_eq (ht : t.Valid p)
    (hlow : IsLeast (Set.range fun i : Fin m => (t.values.get i).value lam) low)
    (hreduced : IsLeast (Set.range fun j : Fin n => (t.reducedCosts.get j).value lam) lowReduced) :
    p.residuals ⟨lam, t.primal lam, t.dual lam⟩ =
      { primal := 0, nonnegativity := max 0 (-low), dual := max 0 (-lowReduced),
        complementary := 0 } := by
  unfold Instance.residuals
  rw [Residuals.mk.injEq]
  refine ⟨Scalar.maxAbs_eq_zero fun i => ?_, maxNegativePart_eq fun bound hbound => ?_,
    maxNegativePart_eq fun bound _ => ?_, Scalar.maxAbs_eq_zero fun j => ?_⟩
  · -- The equations hold, so nothing is left of either side.
    rw [getElem_fin, Vector.getElem_ofFn, ht.primal_equations, sub_self]
  · -- The zeros off the basis do not lower what is at most zero.
    rw [ht.le_primal_iff hbound, le_isGLB_iff hlow.isGLB, mem_lowerBounds, Set.forall_mem_range]
  -- Reduced costs held are those computed from the multipliers.
  · simp only [← ht.value_reducedCosts]
    rw [le_isGLB_iff hreduced.isGLB, mem_lowerBounds, Set.forall_mem_range]
  · rw [getElem_fin, Vector.getElem_ofFn]
    exact ht.complementary lam j

end Tableau

/-- On every tableau that pivots reach, and at every `lam`, the diagnostic finds the equations and
    complementary slackness satisfied, and signs violated as far as those of the tableau are;
    solution and multipliers have the same objective. So the entries of every run, whatever its
    tolerance is, satisfy the equations and complementary slackness. -/
theorem residuals_of_reachable (p : Instance ℚ m n) :
    (∀ every t, Tableau.Reachable p every t → ∀ lam, ∃ low lowReduced,
      IsLeast (Set.range fun i : Fin m => (t.values.get i).value lam) low ∧
      IsLeast (Set.range fun j : Fin n => (t.reducedCosts.get j).value lam) lowReduced ∧
      p.residuals ⟨lam, t.primal lam, t.dual lam⟩ =
        { primal := 0, nonnegativity := max 0 (-low), dual := max 0 (-lowReduced),
          complementary := 0 } ∧
      p.objective lam (t.primal lam) = p.dualObjective lam (t.dual lam)) ∧
    ∀ cfg, ∃ o, solve p cfg = .ok o ∧ ∀ e ∈ o.entries,
      p.matrix.mulVec e.x = p.rhs.value e.lam ∧
        ∀ j : Fin n, e.x[j] * (p.reducedCosts e.lam e.y)[j] = 0 := by
  constructor
  · intro every t ht lam
    -- A problem has rows and columns, so there are a smallest value and a smallest reduced cost.
    have : Nonempty (Fin m) := ⟨⟨0, p.rows_pos⟩⟩
    have : Nonempty (Fin n) := ⟨p.basis.get ⟨0, p.rows_pos⟩⟩
    obtain ⟨i, hi⟩ := Finite.exists_min fun i : Fin m => (t.values.get i).value lam
    obtain ⟨j, hj⟩ := Finite.exists_min fun j : Fin n => (t.reducedCosts.get j).value lam
    have hlow : IsLeast (Set.range fun i : Fin m => (t.values.get i).value lam) _ :=
      ⟨Set.mem_range_self i, Set.forall_mem_range.2 hi⟩
    have hreduced : IsLeast (Set.range fun j : Fin n => (t.reducedCosts.get j).value lam) _ :=
      ⟨Set.mem_range_self j, Set.forall_mem_range.2 hj⟩
    exact ⟨_, _, hlow, hreduced, ht.valid.residuals_eq hlow hreduced, ht.valid.objective_eq lam⟩
  -- None of this needs the tolerance to be small.
  · intro cfg
    obtain ⟨o, hsolve, hsolves⟩ := exists_solves p cfg
    refine ⟨o, hsolve, List.forall_mem_map.2 fun a ha => ?_⟩
    have hvalid := hsolves.validPath.valid a ha
    exact ⟨hvalid.primal_equations a.lam, hvalid.complementary a.lam⟩

/-- At `3`, where the basis is not optimal any more after the first pivot. -/
theorem residuals_of_reachable_twoSegments : ∃ t : Tableau ℚ 1 2, t.Reachable twoSegments 64 ∧
    t.basis = #v[0] ∧ ∃ low lowReduced,
      IsLeast (Set.range fun i : Fin 1 => (t.values.get i).value 3) low ∧
      IsLeast (Set.range fun j : Fin 2 => (t.reducedCosts.get j).value 3) lowReduced ∧
      twoSegments.residuals ⟨3, t.primal 3, t.dual 3⟩ =
        { primal := 0, nonnegativity := max 0 (-low), dual := max 0 (-lowReduced),
          complementary := 0 } ∧
      twoSegments.objective 3 (t.primal 3) = twoSegments.dualObjective 3 (t.dual 3) := by
  have hrun : (Tableau.start twoSegments).toOption.map (fun t => ((t.column twoSegments 0)[0],
      (t.pivot twoSegments 64 0 0).toOption.map (·.basis))) = some (1, some #v[0]) := by
    decide +kernel
  obtain ⟨t, hstart, hrun⟩ := exists_of_map_toOption hrun
  obtain ⟨hentry, hpivot⟩ := Prod.mk.inj hrun
  obtain ⟨t', hpivot, hbasis⟩ := exists_of_map_toOption hpivot
  -- The entry that the pivot divides by is one.
  have hne : (t.column twoSegments 0)[(0 : Fin 1)] ≠ 0 := fun h => one_ne_zero (hentry.symm.trans h)
  have hreach : t'.Reachable twoSegments 64 := .pivot (.start hstart) (fun _ => hne) hpivot
  exact ⟨t', hreach, hbasis, (residuals_of_reachable twoSegments).1 64 t' hreach 3⟩

end ParametricLP
