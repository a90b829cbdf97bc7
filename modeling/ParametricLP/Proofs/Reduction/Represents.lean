import Mathlib
import ParametricLP.Proofs.Duality
import ParametricLP.Proofs.Mat.Blocks
import ParametricLP.Proofs.Reduction.Projection
import ParametricLP.Proofs.Samples

/-!
# What it means to reduce a fit to a linear program

A fit is a choice of coefficients, and of an intercept if there is one. A reduction represents the
problem of minimising a loss over admissible fits when every feasible solution projects to an
admissible fit that loses no more than the solution costs, and every admissible fit is the projection
of a feasible solution that costs no more than the fit loses. The two problems then have the same
optima and the same optimal value.

## Key results

- `Represents.sameOptima`: solutions of the program are exactly the lifts of the best fits
- `Represents.exists_feasible_iff`: what feasible solutions project to
-/

namespace ParametricLP

variable {m n d : ℕ}

/-- Coefficients of `d` features, and an intercept if there is one. -/
structure Fit (d : ℕ) where
  coef : Fin d → ℚ
  intercept : Option ℚ

namespace Fit

/-- The fit as it is read off a solution. -/
def projection (f : Fit d) : Projection ℚ :=
  ⟨List.ofFn f.coef, f.intercept⟩

/-- Fits that are read off alike are the same. -/
theorem projection_injective : Function.Injective (projection (d := d)) := by
  intro f g h
  cases f
  cases g
  simp only [projection, Projection.mk.injEq, List.ofFn_inj] at h
  rw [Fit.mk.injEq]
  exact h

/-- What the fit says for one observation. A missing intercept counts as zero. -/
def predict (f : Fit d) (row : Vector ℚ d) : ℚ :=
  f.intercept.getD 0 + ∑ j : Fin d, row[j] * f.coef j

/-- Sum of the absolute coefficients. -/
def norm (f : Fit d) : ℚ :=
  ∑ j, |f.coef j|

end Fit

namespace Reduction

/-- A reduction is built from a problem and refused where the problem is. -/
theorem mapError_bind_eq_ok_iff {ε ε' α β : Type} {x : Except ε α} {wrap : ε → ε'} {f : α → β}
    {r : β} : (do return f (← x.mapError wrap)) = Except.ok r ↔ ∃ p, x = .ok p ∧ r = f p := by
  cases x with
  | error cause =>
    constructor
    · intro h
      exact nomatch h
    · rintro ⟨p, hp, -⟩
      exact nomatch hp
  | ok p =>
    constructor
    · intro h
      exact ⟨p, rfl, (Except.ok.inj h).symm⟩
    · rintro ⟨p', hp, rfl⟩
      obtain rfl := Except.ok.inj hp
      rfl

/-- The solution `z` stands for the fit `f`. -/
def ProjectsTo (r : Reduction ℚ m n) (z : Vector ℚ n) (f : Fit d) : Prop :=
  r.project z.toList = .ok f.projection

/-- At `lam` the program of `r` stands for minimising `loss` over `admissible`. -/
structure Represents (r : Reduction ℚ m n) (lam : ℚ) (admissible : Set (Fit d))
    (loss : Fit d → ℚ) : Prop where
  /-- A feasible solution costs at least the loss of the fit that it stands for. -/
  project : ∀ z, r.inst.Feasible lam z →
    ∃ f ∈ admissible, r.ProjectsTo z f ∧ loss f ≤ r.inst.objective lam z
  /-- Every fit has a feasible solution that costs just its loss. -/
  lift : ∀ f ∈ admissible,
    ∃ z, r.inst.Feasible lam z ∧ r.ProjectsTo z f ∧ r.inst.objective lam z = loss f

/-- At `lam` the program of `r` is solved by what stands for the fits that minimise `loss` over
    `admissible`, and has the same optimal value. -/
structure SameOptima (r : Reduction ℚ m n) (lam : ℚ) (admissible : Set (Fit d))
    (loss : Fit d → ℚ) : Prop where
  /-- A solution of the program stands for a best fit. -/
  project : ∀ z, r.inst.Minimises lam z →
    ∃ f ∈ admissible, r.ProjectsTo z f ∧ IsMinOn loss admissible f
  /-- A best fit is what some solution of the program stands for. -/
  lift : ∀ f ∈ admissible, IsMinOn loss admissible f →
    ∃ z, r.inst.Minimises lam z ∧ r.ProjectsTo z f
  /-- Least cost and least loss are the same. -/
  value : ∀ v, IsLeast (r.inst.objective lam '' {z | r.inst.Feasible lam z}) v ↔
    IsLeast (loss '' admissible) v

namespace Represents

variable {r : Reduction ℚ m n} {lam : ℚ} {admissible : Set (Fit d)} {loss : Fit d → ℚ}
  {z : Vector ℚ n} {f : Fit d}

/-- What feasible solutions project to. -/
theorem exists_feasible_iff (h : r.Represents lam admissible loss) (f : Fit d) :
    (∃ z, r.inst.Feasible lam z ∧ r.ProjectsTo z f) ↔ f ∈ admissible := by
  constructor
  · rintro ⟨z, hz, hproject⟩
    obtain ⟨g, hg, hproject', -⟩ := h.project z hz
    have heq := Except.ok.inj (hproject.symm.trans hproject')
    rw [Fit.projection_injective heq]
    exact hg
  · intro hf
    obtain ⟨z, hz, hproject, -⟩ := h.lift f hf
    exact ⟨z, hz, hproject⟩

/-- A solution that costs no more than any other stands for a fit that loses no more, and costs just
    what the fit loses. -/
theorem exists_isMinOn (h : r.Represents lam admissible loss) (hz : r.inst.Minimises lam z) :
    ∃ f ∈ admissible, r.ProjectsTo z f ∧ IsMinOn loss admissible f ∧
      r.inst.objective lam z = loss f := by
  obtain ⟨f, hf, hproject, hle⟩ := h.project z hz.1
  -- Every fit has a solution that costs its loss, so none loses less than the least cost.
  have hmin : ∀ g ∈ admissible, r.inst.objective lam z ≤ loss g := by
    intro g hg
    obtain ⟨z', hz', -, hcost⟩ := h.lift g hg
    rw [← hcost]
    exact hz.2 z' hz'
  exact ⟨f, hf, hproject, fun g hg => hle.trans (hmin g hg), le_antisymm (hmin f hf) hle⟩

/-- A fit that loses no more than any other has a solution that costs no more. -/
theorem exists_minimises (h : r.Represents lam admissible loss) (hf : f ∈ admissible)
    (hmin : IsMinOn loss admissible f) :
    ∃ z, r.inst.Minimises lam z ∧ r.ProjectsTo z f ∧ r.inst.objective lam z = loss f := by
  obtain ⟨z, hz, hproject, hcost⟩ := h.lift f hf
  -- No solution costs less than the fit that it stands for.
  have hleast : ∀ z', r.inst.Feasible lam z' → r.inst.objective lam z ≤ r.inst.objective lam z' := by
    intro z' hz'
    obtain ⟨g, hg, -, hle⟩ := h.project z' hz'
    rw [hcost]
    exact (hmin hg).trans hle
  exact ⟨z, ⟨hz, hleast⟩, hproject, hcost⟩

/-- A program that represents a fit has the same optima. -/
theorem sameOptima (h : r.Represents lam admissible loss) : r.SameOptima lam admissible loss := by
  constructor
  · intro z hz
    obtain ⟨f, hf, hproject, hmin, -⟩ := h.exists_isMinOn hz
    exact ⟨f, hf, hproject, hmin⟩
  · intro f hf hmin
    obtain ⟨z, hz, hproject, -⟩ := h.exists_minimises hf hmin
    exact ⟨z, hz, hproject⟩
  · intro v
    constructor
    -- A least cost is that of a solution, and a least loss that of a fit.
    · rintro ⟨⟨z, hz, rfl⟩, hlower⟩
      have hsolves : r.inst.Minimises lam z := ⟨hz, fun z' hz' => hlower ⟨z', hz', rfl⟩⟩
      obtain ⟨f, hf, -, hmin, hcost⟩ := h.exists_isMinOn hsolves
      rw [hcost]
      exact ⟨⟨f, hf, rfl⟩, Set.forall_mem_image.2 fun g hg => hmin hg⟩
    · rintro ⟨⟨f, hf, rfl⟩, hlower⟩
      have hmin : IsMinOn loss admissible f := fun g hg => hlower ⟨g, hg, rfl⟩
      obtain ⟨z, hz, -, hcost⟩ := h.exists_minimises hf hmin
      rw [← hcost]
      exact ⟨⟨z, hz.1, rfl⟩, Set.forall_mem_image.2 hz.2⟩

end Represents

end Reduction

end ParametricLP
