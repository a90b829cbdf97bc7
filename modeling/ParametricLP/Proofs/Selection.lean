import Mathlib
import ParametricLP.Selection
import ParametricLP.Proofs.Tolerance

/-!
# Selection over the rationals

Every stage of a selection keeps the candidates within a window below or above the best value. The
window is as wide as the tolerance times a scale, and neither the best value nor the scale depends on
the tolerance. So a tolerance of zero or more leaves a candidate, a tolerance of zero leaves the best
ones only, and a small one leaves the same candidates as zero.

## Key results

- `argmin_ne_undetermined`, `argmax_ne_undetermined`: a selection never fails
- `le_of_argmin_zero`, `le_of_argmax_zero`: without tolerance the choice is best
- `slope_le_of_argmin_zero`: and of the best it has the largest slope
- `eventually_argmin_eq`, `eventually_argmax_eq`: a small tolerance chooses as none does
-/

namespace ParametricLP

open Filter Topology

namespace Selection

variable {ι κ : Type} [LT κ] [DecidableLT κ] {tol : ℚ} {value slope : ι → ℚ} {key : ι → κ}
  {is : List ι} {stage : ℚ → List ι}

/-! ## Windows -/

/-- `stage tol` keeps the candidates whose value exceeds the smallest by at most `tol * scale`. -/
def IsWindow (value : ι → ℚ) (is : List ι) (stage : ℚ → List ι) : Prop :=
  ∃ best scale, (∃ k ∈ is, value k = best) ∧ (∀ k ∈ is, best ≤ value k) ∧ 0 < scale ∧
    ∀ tol, stage tol = is.filter fun j => value j ≤ best + tol * scale

/-- The first stage of a minimum keeps a window above the smallest value. -/
theorem isWindow_nearSmallest (value : ι → ℚ) (h : is ≠ []) :
    IsWindow value is fun tol => nearSmallest tol value is := by
  obtain ⟨i, is, rfl⟩ := List.exists_cons_of_ne_nil h
  refine ⟨_, _, Scalar.exists_eq_foldl_smaller value i is, ?_,
    lt_of_lt_of_le one_pos (Scalar.one_le_atLeastOne _), fun tol => rfl⟩
  exact List.forall_mem_cons.2 ((Scalar.le_foldl_smaller_iff value is _ _).1 le_rfl)

/-- What is within a window below the largest value is within one above the smallest of the values
    with their signs changed. -/
private theorem isWindow_neg {best scale : ℚ} (hbest : ∃ k ∈ is, value k = best)
    (hle : ∀ k ∈ is, value k ≤ best) (hscale : 1 ≤ scale) :
    IsWindow (fun j => -value j) is fun tol =>
      is.filter fun j => best - tol * scale ≤ value j := by
  obtain ⟨k, hk, rfl⟩ := hbest
  refine ⟨-value k, scale, ⟨k, hk, rfl⟩, fun j hj => neg_le_neg (hle j hj),
    lt_of_lt_of_le one_pos hscale, fun tol => List.filter_congr fun j _ => ?_⟩
  have hiff : value k - tol * scale ≤ value j ↔ -value j ≤ -value k + tol * scale := by
    constructor <;> intro h <;> linarith
  exact decide_eq_decide.2 hiff

/-- The comparison of slopes keeps a window below the largest. -/
theorem isWindow_nearLargest (value : ι → ℚ) (h : is ≠ []) :
    IsWindow (fun j => -value j) is fun tol => nearLargest tol value is := by
  obtain ⟨i, is, rfl⟩ := List.exists_cons_of_ne_nil h
  refine isWindow_neg (Scalar.exists_eq_foldl_larger value i is) ?_ (Scalar.one_le_atLeastOne _)
  exact List.forall_mem_cons.2 ((Scalar.foldl_larger_le_iff value is _ _).1 le_rfl)

/-- The first stage of a maximum keeps a window below the largest value. -/
theorem isWindow_nextToLargest (value : ι → ℚ) (h : is ≠ []) :
    IsWindow (fun j => -value j) is fun tol => nextToLargest tol value is := by
  obtain ⟨i, is, rfl⟩ := List.exists_cons_of_ne_nil h
  refine isWindow_neg (Scalar.exists_eq_foldl_larger value i is) ?_ (Scalar.one_le_atLeastOne _)
  exact List.forall_mem_cons.2 ((Scalar.foldl_larger_le_iff value is _ _).1 le_rfl)

namespace IsWindow

/-- A window is never empty, because the best value is in it. -/
theorem ne_nil (h : IsWindow value is stage) (htol : 0 ≤ tol) : stage tol ≠ [] := by
  obtain ⟨best, scale, ⟨k, hk, rfl⟩, -, hscale, hstage⟩ := h
  refine List.ne_nil_of_mem (a := k) ?_
  rw [hstage, List.mem_filter, decide_eq_true_eq]
  exact ⟨hk, le_add_of_nonneg_right (mul_nonneg htol hscale.le)⟩

/-- Without tolerance a window keeps the smallest values only. -/
theorem le_of_mem_zero (h : IsWindow value is stage) {j k : ι} (hj : j ∈ stage 0) (hk : k ∈ is) :
    value j ≤ value k := by
  obtain ⟨best, scale, -, hbest, -, hstage⟩ := h
  rw [hstage, List.mem_filter, decide_eq_true_eq, zero_mul, add_zero] at hj
  exact hj.2.trans (hbest k hk)

/-- It keeps all that are as small as one that it keeps. -/
theorem mem_zero_of_le (h : IsWindow value is stage) {j k : ι} (hj : j ∈ stage 0) (hk : k ∈ is)
    (hle : value k ≤ value j) : k ∈ stage 0 := by
  obtain ⟨best, scale, -, -, -, hstage⟩ := h
  rw [hstage, List.mem_filter, decide_eq_true_eq] at hj ⊢
  exact ⟨hk, hle.trans hj.2⟩

/-- A small tolerance keeps what none keeps. -/
theorem eventually_eq (h : IsWindow value is stage) : ∀ᶠ tol in 𝓝[>] 0, stage tol = stage 0 := by
  obtain ⟨best, scale, -, -, hscale, hstage⟩ := h
  -- Each candidate is compared with the best value on its own.
  simp only [hstage]
  refine eventually_filter_eq is fun j => ?_
  filter_upwards [eventually_le_add_iff hscale (value j) best] with tol htol
  rw [zero_mul, add_zero]
  exact decide_eq_decide.2 htol

end IsWindow

/-! ## Smallest candidates -/

/-- Candidates remain when only several of them are compared. -/
theorem ifSeveral_ne_nil {keep : List ι → List ι} (hkeep : ∀ is, is ≠ [] → keep is ≠ [])
    (h : is ≠ []) : ifSeveral keep is ≠ [] := by
  unfold ifSeveral
  split
  · exact h
  · exact hkeep is h

/-- Where candidates remain one of them has the smallest key. -/
theorem ofTied_ne_undetermined {key : ι → κ} (h : is ≠ []) :
    Choice.ofTied (smallestKey key is) ≠ .undetermined := by
  cases hkey : smallestKey key is with
  | none => exact absurd (smallestKey_eq_none_iff.1 hkey) h
  | some i => exact nofun

/-- The best candidate is tied with itself, so some candidate is chosen. -/
theorem argmin_ne_undetermined (htol : 0 ≤ tol) :
    argmin tol value slope key is ≠ .undetermined := by
  unfold argmin
  split
  · simp
  · next h =>
    have hne : is ≠ [] := fun hnil => h (List.isEmpty_iff.2 hnil)
    exact ofTied_ne_undetermined (ifSeveral_ne_nil
      (fun js hjs => (isWindow_nearLargest slope hjs).ne_nil htol)
      ((isWindow_nearSmallest value hne).ne_nil htol))

/-- A choice passes both stages. -/
theorem mem_stages_of_argmin {i : ι} (h : argmin tol value slope key is = .chosen i) :
    i ∈ nearSmallest tol value is ∧
      i ∈ ifSeveral (nearLargest tol slope) (nearSmallest tol value is) := by
  have hne : is ≠ [] := List.ne_nil_of_mem (mem_of_argmin h)
  simp only [argmin, List.isEmpty_iff, hne, if_false] at h
  have hi := mem_of_smallestKey (ofTied_eq_chosen_iff.1 h)
  refine ⟨?_, hi⟩
  -- The comparison of slopes only leaves candidates out.
  simp only [ifSeveral] at hi
  split at hi
  · exact hi
  · exact mem_of_mem_nearLargest hi

/-- Without tolerance the chosen candidate has the smallest value. -/
theorem le_of_argmin_zero {i j : ι} (h : argmin 0 value slope key is = .chosen i) (hj : j ∈ is) :
    value i ≤ value j :=
  (isWindow_nearSmallest value (List.ne_nil_of_mem hj)).le_of_mem_zero (mem_stages_of_argmin h).1 hj

/-- Of those with the smallest value it has the largest slope. -/
theorem slope_le_of_argmin_zero {i j : ι} (h : argmin 0 value slope key is = .chosen i) (hj : j ∈ is)
    (hle : value j ≤ value i) : slope j ≤ slope i := by
  obtain ⟨hmem, hi⟩ := mem_stages_of_argmin h
  have hj' := (isWindow_nearSmallest value (List.ne_nil_of_mem hj)).mem_zero_of_le hmem hj hle
  simp only [ifSeveral] at hi
  split at hi
  · -- Slopes are not compared because the chosen candidate is the only one.
    next hlength =>
    obtain ⟨k, hk⟩ := List.length_eq_one_iff.1 (hlength.antisymm (List.length_pos_of_mem hi))
    rw [hk, List.mem_singleton] at hi hj'
    rw [hi, hj']
  · exact neg_le_neg_iff.1
      ((isWindow_nearLargest slope (List.ne_nil_of_mem hj')).le_of_mem_zero hi hj')

/-- A small tolerance chooses the smallest value as none does. -/
theorem eventually_argmin_eq (value slope : ι → ℚ) (key : ι → κ) (is : List ι) :
    ∀ᶠ tol in 𝓝[>] 0, argmin tol value slope key is = argmin 0 value slope key is := by
  by_cases hne : is = []
  · subst hne
    exact Eventually.of_forall fun _ => rfl
  · have hsmall := isWindow_nearSmallest value hne
    -- The second stage works on what the first leaves without tolerance.
    have hlarge := isWindow_nearLargest slope (hsmall.ne_nil le_rfl)
    filter_upwards [hsmall.eventually_eq, hlarge.eventually_eq] with tol h1 h2
    simp only [argmin, ifSeveral, h1, h2]

/-! ## Largest candidates -/

/-- Rational values are all finite. -/
theorem finite_eq_self (value : ι → ℚ) (is : List ι) : finite value is = is :=
  List.filter_eq_self.2 fun _ _ => rfl

/-- The largest value is tied with itself, so some candidate is chosen. -/
theorem argmax_ne_undetermined (htol : 0 ≤ tol) : argmax tol value key is ≠ .undetermined := by
  simp only [argmax, finite_eq_self]
  split
  · simp
  · next h =>
    have hne : is ≠ [] := fun hnil => h (List.isEmpty_iff.2 hnil)
    exact ofTied_ne_undetermined ((isWindow_nextToLargest value hne).ne_nil htol)

/-- Nothing is chosen for want of candidates only. -/
theorem argmax_eq_empty_iff : argmax tol value key is = .empty ↔ is = [] := by
  simp only [argmax, finite_eq_self]
  cases is with
  | nil => simp
  | cons i is =>
    simp only [List.isEmpty_cons, Bool.false_eq_true, ↓reduceIte, reduceCtorEq, iff_false]
    cases smallestKey key _ <;> simp [Choice.ofTied]

/-- Without tolerance the chosen candidate has the largest value. -/
theorem le_of_argmax_zero {i j : ι} (h : argmax 0 value key is = .chosen i) (hj : j ∈ is) :
    value j ≤ value i := by
  have hne : is ≠ [] := List.ne_nil_of_mem hj
  -- Only one stage and the keys have been passed.
  simp only [argmax, finite_eq_self, List.isEmpty_iff, hne, if_false] at h
  have hi := mem_of_smallestKey (ofTied_eq_chosen_iff.1 h)
  exact neg_le_neg_iff.1 ((isWindow_nextToLargest value hne).le_of_mem_zero hi hj)

/-- A small tolerance chooses the largest value as none does. -/
theorem eventually_argmax_eq (value : ι → ℚ) (key : ι → κ) (is : List ι) :
    ∀ᶠ tol in 𝓝[>] 0, argmax tol value key is = argmax 0 value key is := by
  by_cases hne : is = []
  · subst hne
    exact Eventually.of_forall fun _ => rfl
  · filter_upwards [(isWindow_nextToLargest value hne).eventually_eq] with tol h
    simp only [argmax, finite_eq_self, h]

end Selection

end ParametricLP
