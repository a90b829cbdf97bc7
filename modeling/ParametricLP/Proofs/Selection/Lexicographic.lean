import Mathlib
import ParametricLP.Proofs.Selection.Permutation

/-!
# The vanishing perturbation

`Selection.argmin` compares values first, then slopes, then keys. This is how the perturbed values
`value - eps * slope` compare for a positive `eps` too small to turn a strict comparison of values
round. Without tolerance the candidates left before keys are compared are exactly those that
minimise the perturbed value for all small `eps`, and a small tolerance chooses as none does.

## Key results

- `isVanishingMin_iff`: small perturbations compare values first, and slopes where values are equal
- `mem_stages_iff_isVanishingMin`: the candidates whose keys are compared
- `argmin_lexicographic`: the choice of `argmin` is the same in every order, and of smallest key
  among the minimisers
-/

namespace ParametricLP

open Filter Topology

namespace Selection

/-! ## Perturbed values -/

/-- Small perturbations keep the order of two different numbers, and where the numbers are equal the
    one perturbed at the larger rate is the smaller one. -/
theorem eventually_sub_mul_le_iff {x y s t : ℚ} :
    (∀ᶠ eps in 𝓝[>] (0 : ℚ), x - eps * s ≤ y - eps * t) ↔ x ≤ y ∧ (y ≤ x → t ≤ s) := by
  constructor
  · intro h
    refine ⟨le_of_not_gt fun hlt => ?_, fun hle => ?_⟩
    · -- A gap between the numbers would outgrow the perturbations.
      have hscale : 0 < |s - t| + 1 := by positivity
      have hgap := eventually_mul_lt_iff hscale (x - y)
      obtain ⟨eps, ⟨hle, hsmall⟩, hpos⟩ := ((h.and hgap).and eventually_mem_nhdsWithin).exists
      have hfar := hsmall.2 (sub_pos.2 hlt)
      have hrate : eps * (s - t) ≤ eps * (|s - t| + 1) :=
        mul_le_mul_of_nonneg_left ((le_abs_self _).trans (lt_add_one _).le) (le_of_lt hpos)
      linarith
    · -- At equal values the perturbations themselves are compared.
      obtain ⟨eps, hle', hpos⟩ := (h.and eventually_mem_nhdsWithin).exists
      have hmul : eps * t ≤ eps * s := by linarith
      exact le_of_mul_le_mul_left hmul hpos
  · rintro ⟨hle, hslope⟩
    cases le_or_gt t s with
    | inl hts =>
      -- With the larger rate on the smaller side any perturbation will do.
      filter_upwards [self_mem_nhdsWithin] with eps hpos
      have hmul : eps * t ≤ eps * s := mul_le_mul_of_nonneg_left hts (le_of_lt hpos)
      linarith
    | inr hst =>
      -- With the larger rate on the other side the values differ, and a small one keeps their
      -- order.
      have hlt : x < y := lt_of_not_ge fun hge => (hslope hge).not_gt hst
      filter_upwards [eventually_mul_lt_iff (sub_pos.2 hst) (y - x)] with eps hsmall
      have hmul := hsmall.2 (sub_pos.2 hlt)
      linarith

variable {ι κ : Type} [LinearOrder κ] {tol : ℚ} {value slope : ι → ℚ} {key : ι → κ} {is : List ι}

/-- Candidate `i` minimises `value - eps * slope` for all sufficiently small positive `eps`. -/
def IsVanishingMin (value slope : ι → ℚ) (is : List ι) (i : ι) : Prop :=
  i ∈ is ∧ ∀ᶠ eps in 𝓝[>] (0 : ℚ), ∀ j ∈ is, value i - eps * slope i ≤ value j - eps * slope j

/-- The minimisers have the smallest value and, of those, the largest slope. -/
theorem isVanishingMin_iff {i : ι} : IsVanishingMin value slope is i ↔
    i ∈ is ∧ ∀ j ∈ is, value i ≤ value j ∧ (value j ≤ value i → slope j ≤ slope i) := by
  -- There are finitely many candidates, so one bound on `eps` is small enough for all.
  have hall : (∀ᶠ eps in 𝓝[>] (0 : ℚ), ∀ j ∈ is, value i - eps * slope i ≤ value j - eps * slope j) ↔
      ∀ j ∈ is, ∀ᶠ eps in 𝓝[>] (0 : ℚ), value i - eps * slope i ≤ value j - eps * slope j :=
    Filter.eventually_all_finite is.finite_toSet
  unfold IsVanishingMin
  rw [hall]
  simp only [eventually_sub_mul_le_iff]

/-! ## The stages of the selection -/

/-- Without tolerance a window keeps exactly the candidates of smallest value. -/
theorem IsWindow.mem_zero_iff {stage : ℚ → List ι} (h : IsWindow value is stage) {i : ι} :
    i ∈ stage 0 ↔ i ∈ is ∧ ∀ j ∈ is, value i ≤ value j := by
  constructor
  · intro hi
    have hmem : i ∈ is := by
      obtain ⟨best, scale, -, -, -, hstage⟩ := h
      rw [hstage] at hi
      exact (List.mem_filter.1 hi).1
    exact ⟨hmem, fun j => h.le_of_mem_zero hi⟩
  · rintro ⟨hi, hle⟩
    -- One of the candidates attains the best value.
    obtain ⟨best, scale, ⟨k, hk, rfl⟩, -, -, hstage⟩ := h
    rw [hstage, List.mem_filter, decide_eq_true_eq, zero_mul, add_zero]
    exact ⟨hi, hle k hk⟩

/-- Comparing the slopes of a single candidate would leave it in. -/
theorem ifSeveral_nearLargest (htol : 0 ≤ tol) :
    ifSeveral (nearLargest tol slope) is = nearLargest tol slope is := by
  unfold ifSeveral
  split
  · next hlength =>
    cases is with
    | nil => rfl
    | cons i js =>
      obtain rfl : js = [] := by simpa using hlength
      have hscale := mul_nonneg htol
        (zero_le_one.trans (Scalar.one_le_atLeastOne (Scalar.abs (slope i))))
      simp [nearLargest, hscale]
  · rfl

/-- Without tolerance the stages leave exactly the minimisers. -/
theorem mem_stages_iff_isVanishingMin {i : ι} :
    i ∈ ifSeveral (nearLargest 0 slope) (nearSmallest 0 value is) ↔
      IsVanishingMin value slope is i := by
  rw [ifSeveral_nearLargest le_rfl, isVanishingMin_iff]
  -- Without candidates there are no minimisers either.
  by_cases hne : is = []
  · subst hne
    exact ⟨nofun, fun h => nomatch h.1⟩
  · have hsmall := isWindow_nearSmallest value hne
    have hlarge := isWindow_nearLargest slope (hsmall.ne_nil le_rfl)
    -- Both stages are windows, the second one among what the first leaves.
    rw [hlarge.mem_zero_iff, hsmall.mem_zero_iff]
    simp only [hsmall.mem_zero_iff, neg_le_neg_iff]
    constructor
    · rintro ⟨⟨hi, hvalue⟩, hslope⟩
      exact ⟨hi, fun j hj => ⟨hvalue j hj, fun hle =>
        hslope j ⟨hj, fun k hk => hle.trans (hvalue k hk)⟩⟩⟩
    · rintro ⟨hi, hbest⟩
      exact ⟨⟨hi, fun j hj => (hbest j hj).1⟩, fun j ⟨hj, hvalue⟩ => (hbest j hj).2 (hvalue i hi)⟩

/-! ## The choice -/

/-- Where there are candidates one of them is chosen. -/
theorem exists_argmin_eq_chosen (value slope : ι → ℚ) (key : ι → κ) (htol : 0 ≤ tol)
    (hne : is ≠ []) : ∃ i, argmin tol value slope key is = .chosen i := by
  cases h : argmin tol value slope key is with
  | empty => exact absurd (argmin_eq_empty_iff.1 h) hne
  | undetermined => exact absurd h (argmin_ne_undetermined htol)
  | chosen i => exact ⟨i, rfl⟩

/-- Without tolerance the choice is the minimiser of smallest key. -/
theorem isVanishingMin_of_argmin_zero {i : ι} (h : argmin 0 value slope key is = .chosen i) :
    IsVanishingMin value slope is i ∧ ∀ j, IsVanishingMin value slope is j → key i ≤ key j := by
  have hne : is ≠ [] := List.ne_nil_of_mem (mem_of_argmin h)
  simp only [argmin, List.isEmpty_iff, hne, if_false] at h
  have hkey := ofTied_eq_chosen_iff.1 h
  exact ⟨mem_stages_iff_isVanishingMin.1 (mem_of_smallestKey hkey),
    fun j hj => smallestKey_le hkey j (mem_stages_iff_isVanishingMin.2 hj)⟩

/-- Where no two positions have the same key, permuting the positions permutes the choice. -/
theorem exists_forall_perm_argmin {n : ℕ} {value slope : Fin (n + 1) → ℚ} {key : Fin (n + 1) → κ}
    (hkey : Function.Injective key) (htol : 0 ≤ tol) :
    ∃ i, ∀ σ : Equiv.Perm (Fin (n + 1)), ∃ j,
      argmin tol (value ∘ σ) (slope ∘ σ) (key ∘ σ) (List.finRange (n + 1)) = .chosen j ∧
        σ j = i := by
  have hne : List.finRange (n + 1) ≠ [] := List.ne_nil_of_mem (List.mem_finRange 0)
  obtain ⟨i, hi⟩ := exists_argmin_eq_chosen value slope key htol hne
  refine ⟨i, fun σ => ?_⟩
  obtain ⟨j, hj⟩ := exists_argmin_eq_chosen (value ∘ σ) (slope ∘ σ) (key ∘ σ) htol hne
  refine ⟨j, hj, ?_⟩
  -- Choosing among the permuted positions is choosing among all positions in another order.
  have hperm : argmin tol value slope key ((List.finRange (n + 1)).map σ) =
      argmin tol value slope key (List.finRange (n + 1)) :=
    argmin_perm (Equiv.Perm.map_finRange_perm σ) fun i _ j _ => @hkey i j
  rw [argmin_map, hj, hi] at hperm
  exact Choice.chosen.inj hperm

/-- Where keys are distinct the choice does not depend on the order of the candidates. Up to some
    tolerance it minimises `value - eps * slope` for all small positive `eps`, and no other
    minimiser has a smaller key. -/
theorem argmin_lexicographic {n : ℕ} (value slope : Fin (n + 1) → ℚ) (key : Fin (n + 1) → κ) :
    (Function.Injective key → ∀ tol, 0 ≤ tol → ∃ i, ∀ σ : Equiv.Perm (Fin (n + 1)), ∃ j,
      argmin tol (value ∘ σ) (slope ∘ σ) (key ∘ σ) (List.finRange (n + 1)) = .chosen j ∧
        σ j = i) ∧
    ∃ tol₀, 0 < tol₀ ∧ ∀ tol, 0 ≤ tol → tol ≤ tol₀ → ∃ i,
      argmin tol value slope key (List.finRange (n + 1)) = .chosen i ∧
      (∃ eps₀, 0 < eps₀ ∧ ∀ eps, 0 < eps → eps ≤ eps₀ → ∀ j,
        value i - eps * slope i ≤ value j - eps * slope j) ∧
      ∀ j, (∃ eps₀, 0 < eps₀ ∧ ∀ eps, 0 < eps → eps ≤ eps₀ → ∀ k,
        value j - eps * slope j ≤ value k - eps * slope k) → key i ≤ key j := by
  refine ⟨fun hkey tol htol => exists_forall_perm_argmin hkey htol, ?_⟩
  have hne : List.finRange (n + 1) ≠ [] := List.ne_nil_of_mem (List.mem_finRange 0)
  obtain ⟨tol₀, hpos, hsame⟩ := eventually_nhdsGT_zero_iff.1
    (eventually_argmin_eq value slope key (List.finRange (n + 1)))
  refine ⟨tol₀, hpos, fun tol htol hle => ?_⟩
  obtain ⟨i, hi⟩ := exists_argmin_eq_chosen value slope key le_rfl hne
  have hchoice : argmin tol value slope key (List.finRange (n + 1)) = .chosen i := by
    rcases htol.eq_or_lt with rfl | htol
    · -- Without tolerance nothing is to be shown.
      exact hi
    · rw [hsame tol htol hle, hi]
  obtain ⟨hmin, hkey⟩ := isVanishingMin_of_argmin_zero hi
  refine ⟨i, hchoice, ?_, fun j hj => hkey j ⟨List.mem_finRange j, ?_⟩⟩
  · obtain ⟨eps₀, hpos, hbest⟩ := eventually_nhdsGT_zero_iff.1 hmin.2
    exact ⟨eps₀, hpos, fun eps h0 hle j => hbest eps h0 hle j (List.mem_finRange j)⟩
  · obtain ⟨eps₀, hpos, hbest⟩ := hj
    exact eventually_nhdsGT_zero_iff.2 ⟨eps₀, hpos, fun eps h0 hle k _ => hbest eps h0 hle k⟩

end Selection

end ParametricLP
