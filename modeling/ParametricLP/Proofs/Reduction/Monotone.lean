import Mathlib
import ParametricLP.Proofs.Path.Optimality
import ParametricLP.Proofs.Reduction.Path
import ParametricLP.Proofs.Reduction.Start
import ParametricLP.Proofs.Run.Bookkeeping
import ParametricLP.Proofs.Run.Tightening

/-!
# Coefficients grow along a path

Two fits that are best under two penalties can be compared: the one with the smaller penalty has the
larger coefficients and the smaller loss, because each beats the other under its own penalty. A bound
on the residuals is similar, as what a smaller bound admits a larger one does too. With a tolerance
that is small enough every solution on a path stands for a best fit at its own `lam`, so the absolute
coefficients never shrink along a path and what the fits lose on the training data never grows.

## Key results

- `norm_le_of_penalised`, `loss_le_of_penalised`: two penalties compared
- `Reduction.alongPaths`: what holds of best fits holds along all paths of small tolerances
- `paths_monotone`: the paths of all reductions of a design
-/

namespace ParametricLP

variable {m n d k : ℕ}

/-! ## Two penalties -/

section Penalties

variable {β : Type} {S : Set β} {loss norm : β → ℚ} {lam lam' : ℚ} {f g : β}

/-- Of what is best under two penalties, the one under the smaller penalty is the larger. -/
theorem norm_le_of_penalised (hlam : lam' < lam) (hf : f ∈ S) (hg : g ∈ S)
    (hmin : IsMinOn (fun f => loss f + lam * norm f) S f)
    (hmin' : IsMinOn (fun f => loss f + lam' * norm f) S g) : norm f ≤ norm g := by
  have hle : loss f + lam * norm f ≤ loss g + lam * norm g := hmin hg
  have hle' : loss g + lam' * norm g ≤ loss f + lam' * norm f := hmin' hf
  -- Each is best under its own penalty, and the losses cancel in the sum of both facts.
  have hdiff : (lam - lam') * norm f ≤ (lam - lam') * norm g := by linarith
  exact le_of_mul_le_mul_left hdiff (sub_pos.2 hlam)

/-- And it loses no more. -/
theorem loss_le_of_penalised (hlam' : 0 ≤ lam') (hlam : lam' < lam) (hf : f ∈ S) (hg : g ∈ S)
    (hmin : IsMinOn (fun f => loss f + lam * norm f) S f)
    (hmin' : IsMinOn (fun f => loss f + lam' * norm f) S g) : loss g ≤ loss f := by
  have hnorm := norm_le_of_penalised hlam hf hg hmin hmin'
  -- The penalty of the first fit is no larger, so its loss has to make up for it.
  have hle' : loss g + lam' * norm g ≤ loss f + lam' * norm f := hmin' hf
  have hpenalty := mul_le_mul_of_nonneg_left hnorm hlam'
  linarith

end Penalties

/-! ## Best fits along a path -/

/-- Along a path of decreasing `lam`, none of them negative, each fit is best at its own. -/
structure BestAlong (path : List (Mark ℚ (Tableau ℚ m n))) (admissible : ℚ → Set (Fit d))
    (loss : ℚ → Fit d → ℚ) (best : Mark ℚ (Tableau ℚ m n) → Fit d) : Prop where
  nonneg : ∀ a ∈ path, 0 ≤ a.lam
  decreasing : path.Pairwise fun b a => a.lam < b.lam
  mem : ∀ a ∈ path, best a ∈ admissible a.lam
  isMinOn : ∀ a ∈ path, IsMinOn (loss a.lam) (admissible a.lam) (best a)

/-- What holds of best fits at any two `lam` holds of any two along a path. -/
theorem BestAlong.pairwise {path : List (Mark ℚ (Tableau ℚ m n))} {admissible : ℚ → Set (Fit d)}
    {loss : ℚ → Fit d → ℚ} {best : Mark ℚ (Tableau ℚ m n) → Fit d} {R : Fit d → Fit d → Prop}
    (h : BestAlong path admissible loss best)
    (hR : ∀ lam lam' f g, 0 ≤ lam' → lam' < lam → f ∈ admissible lam → g ∈ admissible lam' →
      IsMinOn (loss lam) (admissible lam) f → IsMinOn (loss lam') (admissible lam') g → R f g) :
    (path.map best).Pairwise R := by
  rw [List.pairwise_map]
  apply h.decreasing.imp_of_mem
  intro b a hb ha hlam
  exact hR _ _ _ _ (h.nonneg a ha) hlam (h.mem b hb) (h.mem a ha) (h.isMinOn b hb) (h.isMinOn a ha)

namespace RegularizationPath

/-- There are coefficients at every breakpoint, and the sums of their absolute values never fall. -/
structure Grows (P : RegularizationPath ℚ m n) : Prop where
  length_eq : P.norms.length = P.size
  pairwise : P.norms.Pairwise (· ≤ ·)

/-- There are predictions at every breakpoint, and what they lose never rises. -/
def Improves (P : RegularizationPath ℚ m n) (X : Nested ℚ) (loss : Vector ℚ k → ℚ) : Prop :=
  ∃ predictions : List (Vector ℚ k), predictions.length = P.size ∧
    (∀ i (hi : i < predictions.length), P.predict X i = .ok (.ofVector predictions[i])) ∧
    predictions.Pairwise fun v w => loss w ≤ loss v

variable {intercept : Bool} {fits : List (Fit d)} {o : Outcome ℚ m n}

/-- A path of fits grows whose absolute coefficients do. -/
theorem grows_ofFits (hlength : fits.length = o.path.length)
    (h : fits.Pairwise fun f g => f.norm ≤ g.norm) : (ofFits intercept fits o).Grows := by
  constructor
  · rw [norms_ofFits, List.length_map]
    exact hlength
  · rw [norms_ofFits, List.pairwise_map]
    exact h

/-- A path of fits improves whose losses fall. -/
theorem improves_ofFits {X : Nested ℚ} {A : Mat ℚ k d} {loss : Vector ℚ k → ℚ}
    (hX : X.read = .ok (.ofMat A)) (hlength : fits.length = o.path.length)
    (hfits : ∀ f ∈ fits, f.intercept.isSome = intercept)
    (h : fits.Pairwise fun f g => loss (Vector.map g.predict A) ≤ loss (Vector.map f.predict A)) :
    (ofFits intercept fits o).Improves X loss := by
  refine ⟨fits.map fun f => Vector.map f.predict A, ?_, fun i hi => ?_, List.pairwise_map.2 h⟩
  · rw [List.length_map]
    exact hlength
  · rw [List.getElem_map]
    exact predict_ofFits hX hlength.symm hfits _

end RegularizationPath

/-! ## Paths of small tolerances -/

namespace Reduction

variable {r : Reduction ℚ m n} {intercept : Bool} {admissible : ℚ → Set (Fit d)}
  {loss : ℚ → Fit d → ℚ} {cfg : Config ℚ}

/-- With all tolerances that are small enough the program of `r` has an outcome, and the path read
    off it, if its coefficients are not too many for a table, has the property `Q`. -/
def AlongPaths (r : Reduction ℚ m n) (cfg : Config ℚ) (Q : RegularizationPath ℚ m n → Prop) : Prop :=
  ∃ tol₀, 0 < tol₀ ∧ ∀ tol (htol : 0 < tol), tol ≤ tol₀ →
    ∃ o, solve r.inst (cfg.withTol tol htol) = .ok o ∧
      (r.features * (max 1 o.path.length : ℕ) < tableLimit → ∃ P, r.path o = .ok P ∧ Q P)

/-- Along an exact path the solutions stand for best fits. -/
theorem exists_bestAlong {o : Outcome ℚ m n}
    (h : ∀ lam, 0 ≤ lam → r.Represents lam (admissible lam) (loss lam))
    (hsolves : Solves r.inst cfg o) (hexact : o.Exact r.inst) :
    ∃ best, BestAlong o.path admissible loss best ∧
      ∀ a ∈ o.path, r.ProjectsTo (a.held.primal a.lam) (best a) := by
  have hvalid := hsolves.validPath
  -- No position lies below the threshold, which is nonnegative.
  have hnonneg (a : Mark ℚ (Tableau ℚ m n)) (ha : a ∈ o.path) : 0 ≤ a.lam := by
    have hle := hsolves.orderly.threshold_le (List.mem_map_of_mem ha)
    exact (not_lt.1 cfg.threshold_nonneg).trans hle
  have hbest (a : Mark ℚ (Tableau ℚ m n)) : ∃ f : Fit d, a ∈ o.path → f ∈ admissible a.lam ∧
      IsMinOn (loss a.lam) (admissible a.lam) f ∧ r.ProjectsTo (a.held.primal a.lam) f := by
    by_cases ha : a ∈ o.path
    · have hmin := ((hvalid.valid a ha).solvedBy (hexact.covers.optimalAt a ha)).minimises
      obtain ⟨f, hf, hproject, hleast, -⟩ := (h a.lam (hnonneg a ha)).exists_isMinOn hmin
      exact ⟨f, fun _ => ⟨hf, hleast, hproject⟩⟩
    · -- Off the path nothing is asked of the fit.
      exact ⟨⟨fun _ => 0, none⟩, fun ha' => absurd ha' ha⟩
  choose best hbest using hbest
  exact ⟨best, ⟨hnonneg, hvalid.decreasing, fun a ha => (hbest a ha).1,
    fun a ha => (hbest a ha).2.1⟩, fun a ha => (hbest a ha).2.2⟩

/-- What holds of best fits along a path holds along all paths of small tolerances. -/
theorem alongPaths (hr : r.StartsWithFit d intercept)
    (h : ∀ lam, 0 ≤ lam → r.Represents lam (admissible lam) (loss lam))
    {Q : RegularizationPath ℚ m n → Prop} (hQ : ∀ o best, BestAlong o.path admissible loss best →
      Q (.ofFits intercept (o.path.map best) o)) : r.AlongPaths cfg Q := by
  -- An exact run records solutions that are optimal at their own position.
  obtain ⟨tol₀, hpos, hexact⟩ := exists_tol_exact r.inst cfg
  refine ⟨tol₀, hpos, fun tol htol hle => ?_⟩
  obtain ⟨o, hsolve, hsolves, hexact⟩ := hexact tol htol hle
  refine ⟨o, hsolve, fun htable => ?_⟩
  obtain ⟨best, hbest, hproject⟩ := exists_bestAlong h hsolves hexact
  exact ⟨_, path_eq_ok hr hproject htable, hQ o best hbest⟩

/-- Under a penalty on the absolute coefficients these grow and the loss falls. -/
theorem alongPaths_of_penalised {A : Mat ℚ k d} {X : Nested ℚ} {loss : Vector ℚ k → ℚ}
    (hr : r.StartsWithFit d intercept) (hX : X.read = .ok (.ofMat A))
    (h : ∀ lam, 0 ≤ lam → r.Represents lam {f | f.intercept.isSome = intercept}
      fun f => loss (Vector.map f.predict A) + lam * f.norm) :
    r.AlongPaths cfg fun P => P.Grows ∧ P.Improves X loss := by
  apply alongPaths hr h
  intro o best hbest
  have hlength : (o.path.map best).length = o.path.length := List.length_map _
  constructor
  · apply RegularizationPath.grows_ofFits hlength
    apply hbest.pairwise
    intro lam lam' f g _ hlam hf hg hmin hmin'
    exact norm_le_of_penalised hlam hf hg hmin hmin'
  · apply RegularizationPath.improves_ofFits hX hlength
    · intro f hf
      obtain ⟨a, ha, rfl⟩ := List.mem_map.1 hf
      exact hbest.mem a ha
    · apply hbest.pairwise
      intro lam lam' f g hlam' hlam hf hg hmin hmin'
      have hle := loss_le_of_penalised hlam' hlam hf hg hmin hmin'
      exact hle

/-- Under a bound that admits more for larger `lam` the coefficients grow. -/
theorem alongPaths_of_bound (hr : r.StartsWithFit d intercept) (hmono : Monotone admissible)
    (h : ∀ lam, 0 ≤ lam → r.Represents lam (admissible lam) Fit.norm) :
    r.AlongPaths cfg RegularizationPath.Grows := by
  apply alongPaths hr h
  intro o best hbest
  apply RegularizationPath.grows_ofFits (List.length_map _)
  apply hbest.pairwise
  intro lam lam' f g _ hlam _ hg hmin _
  -- What is admitted under the smaller bound competes under the larger one.
  exact hmin (hmono hlam.le hg)

end Reduction

/-- What the programs under a bound list grows along their paths. -/
theorem MaxNorm.alongPaths {K : Mat ℚ k d} {y : Vector ℚ k} {name : String}
    {R : Reduction ℚ (k + k) (width k d)} (h : reduction K y name = .ok R) (cfg : Config ℚ) :
    R.AlongPaths cfg RegularizationPath.Grows := by
  apply Reduction.alongPaths_of_bound (startsWithFit h) _ fun lam _ => represents_norm h lam
  -- What a smaller bound admits a larger one does.
  intro lam lam' hle f hf
  exact ⟨hf.1, hf.2.trans hle⟩

/-- For every design and all budgets: with all tolerances that are small enough the absolute
    coefficients never shrink along the path of a reduction. For quantile regression and the support
    vector machine the predictions for the training data never lose more than those before. -/
theorem paths_monotone {X y : Nested ℚ} {A : AnyDesign ℚ} (hA : Design.ofNested? X y = .ok A)
    (cfg : Config ℚ) :
    (∀ (tau : ℚ) (intercept : Bool), 0 < tau → tau < 1 →
      ∃ r, Quantile.reduction A.design tau intercept = .ok r ∧
        r.AlongPaths cfg fun P => P.Grows ∧ P.Improves X fun v : Vector ℚ A.rows =>
          ∑ i : Fin A.rows, Quantile.checkLoss tau (A.design.response[i] - v[i])) ∧
    ((∀ i : Fin A.rows, A.design.response[i] = 1 ∨ A.design.response[i] = -1) →
      ∃ r, Hinge.reduction A.design = .ok r ∧
        r.AlongPaths cfg fun P => P.Grows ∧ P.Improves X fun v : Vector ℚ A.rows =>
          ∑ i : Fin A.rows, max 0 (1 - A.design.response[i] * v[i])) ∧
    (∃ r, MaxNorm.dantzig A.design = .ok r ∧ r.AlongPaths cfg RegularizationPath.Grows) ∧
    ∃ r, MaxNorm.compressedSensing A.design = .ok r ∧
      r.AlongPaths cfg RegularizationPath.Grows := by
  obtain ⟨hrows, hfeatures⟩ := Design.pos_of_ofNested? hA
  have hX := Design.read_of_ofNested? hA
  -- The predictions for the training data are those of its rows.
  have hpredict (f : Fit A.features) (i : Fin A.rows) :
      (Vector.map f.predict A.design.matrix)[i] = f.predict A.design.matrix[i] := by
    simp
  refine ⟨?_, ?_, ?_, ?_⟩
  · intro tau intercept hpos hlt
    obtain ⟨r, hr⟩ := Quantile.exists_reduction A.design intercept hrows hpos hlt
    refine ⟨r, hr, Reduction.alongPaths_of_penalised (Quantile.startsWithFit hr) hX ?_⟩
    intro lam hlam
    simp only [hpredict]
    exact Quantile.represents_loss hr hlam
  · intro hlabels
    obtain ⟨r, hr⟩ := Hinge.exists_reduction A.design hrows hlabels
    refine ⟨r, hr, Reduction.alongPaths_of_penalised (Hinge.startsWithFit hr) hX ?_⟩
    intro lam hlam
    simp only [hpredict]
    exact Hinge.represents_loss hr hlam
  · obtain ⟨r, hr⟩ := MaxNorm.exists_reduction (A.design.matrix.transpose.mul A.design.matrix)
      (Mat.vecMul A.design.response A.design.matrix) "dantzig" hfeatures
    exact ⟨r, hr, MaxNorm.alongPaths hr cfg⟩
  · obtain ⟨r, hr⟩ := MaxNorm.exists_reduction A.design.matrix A.design.response
      "compressed_sensing" hrows
    exact ⟨r, hr, MaxNorm.alongPaths hr cfg⟩

/-- Labels can be regressed on and separated, along paths that end at zero. -/
theorem paths_monotone_threeObservations : ∃ X y,
    Design.ofNested? X y = .ok threeObservations ∧
    (∃ r, Quantile.reduction threeObservations.design (1 / 3) true = .ok r ∧
      r.AlongPaths (budgets 9 9 0) fun P => P.Grows ∧ P.Improves X fun v : Vector ℚ 3 =>
        ∑ i : Fin 3, Quantile.checkLoss (1 / 3) (threeObservations.design.response[i] - v[i])) ∧
    (∃ r, Hinge.reduction threeObservations.design = .ok r ∧
      r.AlongPaths (budgets 9 9 0) fun P => P.Grows ∧ P.Improves X fun v : Vector ℚ 3 =>
        ∑ i : Fin 3, max 0 (1 - threeObservations.design.response[i] * v[i])) ∧
    ∃ r, MaxNorm.compressedSensing threeObservations.design = .ok r ∧
      r.AlongPaths (budgets 9 9 0) RegularizationPath.Grows := by
  -- The two lists are read as this design.
  have hA : Design.ofNested? (.list [.list [.number 3], .list [.number 2], .list [.number (-1)]])
      (.list [.number 1, .number 1, .number (-1)]) = .ok threeObservations := rfl
  obtain ⟨hquantile, hhinge, -, hsensing⟩ := paths_monotone hA (budgets 9 9 0)
  have hlabels : ∀ i : Fin threeObservations.rows, threeObservations.design.response[i] = 1 ∨
      threeObservations.design.response[i] = -1 := by decide
  exact ⟨_, _, hA, hquantile (1 / 3) true (by norm_num) (by norm_num), hhinge hlabels, hsensing⟩

-- The largest residual cannot fall below one half, where the coefficient has grown to one half.
example : (do
    let r ← (MaxNorm.compressedSensing threeObservations.design).toOption
    let o ← (solve r.inst (budgets 9 9 0)).toOption
    let P ← (r.path o).toOption
    return (o.lams, P.norms)) = some ([1, 1 / 2], [0, 1 / 2]) := by
  decide +kernel

end ParametricLP
