import Mathlib
import ParametricLP.Reduction.Path
import ParametricLP.Proofs.Reduction.Represents

/-!
# Paths of fits

Where every solution on a path stands for a fit, the path of the reduction lists the coefficients and
the intercepts of these fits, and predicts what they predict. It is read off in full unless its
coefficients are too many for a table.

## Key results

- `Reduction.path_eq_ok`: the path lists the fits that the solutions stand for
- `RegularizationPath.predict_ofFits`: its predictions are those of the fits
- `RegularizationPath.norms_ofFits`: its absolute coefficients are those of the fits
-/

namespace ParametricLP

variable {m n d k : ℕ}

/-- A list passed through steps that all succeed. -/
theorem mapM_eq_ok {α β ε : Type} {f : α → Except ε β} {g : α → β} {xs : List α}
    (h : ∀ x ∈ xs, f x = .ok (g x)) : xs.mapM f = .ok (xs.map g) := by
  induction xs with
  | nil => rfl
  | cons x xs ih =>
    rw [List.mapM_cons, h x List.mem_cons_self, ih fun y hy => h y (List.mem_cons_of_mem x hy)]
    rfl

namespace RegularizationPath

/-- The path that lists fits, with their intercepts if the problem has one. -/
def ofFits (intercept : Bool) (fits : List (Fit d)) (o : Outcome ℚ m n) :
    RegularizationPath ℚ m n where
  features := d
  coef := fits.map fun f => List.ofFn f.coef
  intercept := if intercept then some (fits.filterMap (·.intercept)) else none
  outcome := o

/-- Sums of the absolute coefficients at the breakpoints. -/
def norms (P : RegularizationPath ℚ m n) : List ℚ :=
  P.coef.map fun coef => (coef.map abs).sum

variable {intercept : Bool} {fits : List (Fit d)} {o : Outcome ℚ m n}

/-- The sums of the listed coefficients are the norms of the fits. -/
theorem norms_ofFits : (ofFits intercept fits o).norms = fits.map Fit.norm := by
  simp only [norms, ofFits, List.map_map]
  apply List.map_congr_left
  intro f _
  simp only [Function.comp_apply, List.map_ofFn, List.sum_ofFn]
  rfl

/-! ## Predictions -/

/-- The linear predictor of a fit. -/
theorem predictor_ofFn (f : Fit d) (row : Vector ℚ d) :
    predictor (List.ofFn f.coef) f.intercept row.toList = f.predict row := by
  -- Row and coefficients are multiplied entry by entry.
  have hzip : row.toList.zipWith (· * ·) (List.ofFn f.coef) =
      List.ofFn fun j : Fin d => row[j] * f.coef j := by
    apply List.ext_getElem
    · simp
    · simp
  unfold predictor
  simp only [hzip, ← List.sum_eq_foldl, List.sum_ofFn, Fit.predict]
  cases f.intercept with
  | none => rw [Option.getD_none, zero_add]
  | some b => rw [Option.getD_some, add_comm]

/-- The intercept listed at a breakpoint is the one of the fit there. -/
theorem intercept_ofFits (hfits : ∀ f ∈ fits, f.intercept.isSome = intercept) {i : ℕ}
    (hi : i < fits.length) :
    (ofFits intercept fits o).intercept.bind (·[i]?) = fits[i].intercept := by
  cases intercept with
  | false =>
    have hnone := hfits fits[i] (List.getElem_mem hi)
    exact (Option.isNone_iff_eq_none.1 (Option.isSome_eq_false_iff.1 hnone)).symm
  | true =>
    -- Every fit has an intercept, so none is left out and positions agree.
    have hsome (f : Fit d) (hf : f ∈ fits) : f.intercept = some (f.intercept.getD 0) := by
      obtain ⟨b, hb⟩ := Option.isSome_iff_exists.1 (hfits f hf)
      rw [hb, Option.getD_some]
    have hmap := List.filterMap_eq_map_iff_forall_eq_some.2 hsome
    simp only [ofFits, ↓reduceIte, Option.bind_some, hmap, List.getElem?_map,
      List.getElem?_eq_getElem hi, Option.map_some]
    exact (hsome fits[i] (List.getElem_mem hi)).symm

/-- At every breakpoint the path predicts what the fit there does. -/
theorem predict_ofFits {X : Nested ℚ} {A : Mat ℚ k d} (hX : X.read = .ok (.ofMat A))
    (hlength : o.path.length = fits.length) (hfits : ∀ f ∈ fits, f.intercept.isSome = intercept)
    {i : ℕ} (hi : i < fits.length) : (ofFits intercept fits o).predict X i =
      .ok (.ofVector (Vector.map fits[i].predict A)) := by
  -- The path is not empty, because it has an entry.
  have hsize : ¬ (ofFits intercept fits o).size = 0 := by
    simp only [size, ofFits]
    omega
  have hcoef : i < (ofFits intercept fits o).coef.length := by simpa [ofFits] using hi
  have hvalue : (fun row : Vector ℚ d => predictor (ofFits intercept fits o).coef[i]
      ((ofFits intercept fits o).intercept.bind (·[i]?)) row.toList) = fits[i].predict := by
    funext row
    rw [intercept_ofFits hfits hi, ← predictor_ofFn]
    simp only [ofFits, List.getElem_map]
  unfold predict
  rw [if_neg hsize, hX, ← hvalue]
  simp only [Except.mapError, bind, Except.bind, resolve?_natCast hcoef]
  exact if_pos rfl

end RegularizationPath

namespace Reduction

variable {r : Reduction ℚ m n} {intercept : Bool} {o : Outcome ℚ m n}

/-- The path lists what the recorded solutions stand for, if that fits in a table. -/
theorem path_eq_ok (hr : r.StartsWithFit d intercept) {best : Mark ℚ (Tableau ℚ m n) → Fit d}
    (hbest : ∀ a ∈ o.path, r.ProjectsTo (a.held.primal a.lam) (best a))
    (htable : r.features * (max 1 o.path.length : ℕ) < tableLimit) :
    r.path o = .ok (.ofFits intercept (o.path.map best) o) := by
  -- A path that fits in a table is not refused.
  have hroom : ¬ (r.features < 0 ∨ tableLimit ≤ r.features * (max 1 o.path.length : ℕ)) := by
    have hfeatures := hr.features_eq
    omega
  have hfeatures : r.features.toNat = d := by
    rw [hr.features_eq, Int.toNat_natCast]
  unfold path Outcome.primal
  rw [if_neg hroom]
  simp only [List.mapM_map, hfeatures]
  rw [mapM_eq_ok (g := fun a => (best a).projection)]
  · simp only [RegularizationPath.ofFits, hr.intercept_eq, bind, Except.bind, pure, Except.pure,
      List.map_map, List.filterMap_map]
    cases intercept with
    | false => rfl
    | true => rfl
  · -- What is read off has the length of a row already, so it is not stretched.
    intro a ha
    have hproject : r.project _ = .ok _ := hbest a ha
    have hstretch : stretchTo? d (best a).projection.coef = some (best a).projection.coef :=
      if_pos List.length_ofFn
    simp only [Function.comp_apply, hproject, bind, Except.bind, hstretch]
    rfl

end Reduction

end ParametricLP
