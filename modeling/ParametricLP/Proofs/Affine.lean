import Mathlib
import ParametricLP.Affine.Vector
import ParametricLP.Proofs.Mat.View

/-!
# Signs of affine functions

A function that rises with `lam` is negative exactly below the point where it falls to zero, and one
that does not rise stays nonnegative as `lam` decreases. So what is nonnegative at some `top` stays so
down to the largest such point.

## Key results

- `Affine.value_nonneg_of_le`: nonnegative at `top` is nonnegative down to the crossing
- `Affine.value_neg_of_lt`: below its crossing a function is negative
- `Affine.nonnegAtInfinity_zero_iff_exists`: what is accepted as nonnegative for all large `lam`
- `Affine.nonnegAbove_zero_iff`: what is accepted as nonnegative from some `lam` on
- `AffineVector.entries_value_transform`: values commute with linear maps
-/

namespace ParametricLP

open Matrix

namespace Affine

variable {e f : Affine ℚ} {tol c lam top : ℚ}

/-- The value of a difference is the difference of the values. -/
theorem value_sub (e f : Affine ℚ) (lam : ℚ) : (e.sub f).value lam = e.value lam - f.value lam := by
  unfold sub value
  ring

/-- A function falls to zero where its value is zero, if its slope is above the tolerance. -/
theorem fallsToZero?_eq_some_iff :
    e.fallsToZero? tol = some c ↔ tol < e.slope ∧ -e.constant / e.slope = c := by
  unfold fallsToZero?
  split <;> simp_all

/-- A function is determined by its values. -/
theorem ext_value (h : ∀ lam, e.value lam = f.value lam) : e = f := by
  have hzero := h 0
  have hone := h 1
  unfold value at hzero hone
  cases e
  cases f
  -- At `0` and `1` the values are the constant and the sum of both coefficients.
  simp only [zero_mul, add_zero, one_mul] at hzero hone
  rw [hzero, add_right_inj] at hone
  rw [hzero, hone]

/-- The difference of two values is proportional to the slope. -/
theorem value_eq_add (e : Affine ℚ) (lam top : ℚ) :
    e.value lam = e.value top + (lam - top) * e.slope := by
  unfold value
  ring

/-- An affine function is continuous. -/
theorem continuous_value (e : Affine ℚ) : Continuous e.value := by
  unfold value
  fun_prop

/-- A function is zero where it falls to zero. -/
theorem value_of_fallsToZero? (htol : 0 ≤ tol) (h : e.fallsToZero? tol = some c) :
    e.value c = 0 := by
  obtain ⟨hslope, rfl⟩ := fallsToZero?_eq_some_iff.1 h
  have hne : e.slope ≠ 0 := ne_of_gt (lt_of_le_of_lt htol hslope)
  unfold value
  rw [div_mul_cancel₀ _ hne]
  ring

/-- Below its crossing a function is negative. -/
theorem value_neg_of_lt (htol : 0 ≤ tol) (h : e.fallsToZero? tol = some c) (hlam : lam < c) :
    e.value lam < 0 := by
  have hslope : 0 < e.slope := lt_of_le_of_lt htol (fallsToZero?_eq_some_iff.1 h).1
  rw [value_eq_add e lam c, value_of_fallsToZero? htol h, zero_add]
  exact mul_neg_of_neg_of_pos (sub_neg.2 hlam) hslope

/-- A function that is nonnegative at `top` falls to zero at `top` or below. -/
theorem le_of_fallsToZero? (htol : 0 ≤ tol) (h : e.fallsToZero? tol = some c)
    (htop : 0 ≤ e.value top) : c ≤ top := by
  by_contra hlt
  exact absurd (value_neg_of_lt htol h (not_le.1 hlt)) (not_lt.2 htop)

/-- A function that is nonnegative at `top` stays so as `lam` decreases to its crossing. -/
theorem value_nonneg_of_le (htop : 0 ≤ e.value top) (hle : lam ≤ top)
    (hcross : ∀ c, e.fallsToZero? 0 = some c → c ≤ lam) : 0 ≤ e.value lam := by
  by_cases hslope : 0 < e.slope
  · -- A function that rises is compared with its crossing, another one with `top`.
    have hfalls : e.fallsToZero? 0 = some (-e.constant / e.slope) :=
      fallsToZero?_eq_some_iff.2 ⟨hslope, rfl⟩
    rw [value_eq_add e lam _, value_of_fallsToZero? le_rfl hfalls, zero_add]
    exact mul_nonneg (sub_nonneg.2 (hcross _ hfalls)) hslope.le
  · rw [value_eq_add e lam top]
    exact add_nonneg htop (mul_nonneg_of_nonpos_of_nonpos (sub_nonpos.2 hle) (not_lt.1 hslope))

/-- Below a point where it is nonnegative, a function is nonnegative just down to its crossing. -/
theorem value_nonneg_iff_of_le (htop : 0 ≤ e.value top) (hle : lam ≤ top) :
    0 ≤ e.value lam ↔ ∀ c, e.fallsToZero? 0 = some c → c ≤ lam :=
  ⟨fun h _ hc => le_of_fallsToZero? le_rfl hc h, value_nonneg_of_le htop hle⟩

/-- Without tolerance a function is accepted that rises, or that is constant and not negative. -/
theorem nonnegAtInfinity_zero_iff :
    e.nonnegAtInfinity 0 0 = true ↔ 0 < e.slope ∨ e.slope = 0 ∧ 0 ≤ e.constant := by
  simp only [nonnegAtInfinity, Scalar.abs_eq_abs, neg_zero, Bool.or_eq_true, Bool.and_eq_true,
    decide_eq_true_eq, abs_nonpos_iff]

/-- A function is accepted without tolerance exactly where it is nonnegative for all large `lam`. -/
theorem nonnegAtInfinity_zero_iff_exists :
    e.nonnegAtInfinity 0 0 = true ↔ ∃ low, ∀ lam, low ≤ lam → 0 ≤ e.value lam := by
  rw [nonnegAtInfinity_zero_iff]
  constructor
  · rintro (hslope | ⟨hslope, hconst⟩)
    · -- A function that rises is nonnegative from its crossing on.
      have hfalls : e.fallsToZero? 0 = some (-e.constant / e.slope) :=
        fallsToZero?_eq_some_iff.2 ⟨hslope, rfl⟩
      refine ⟨-e.constant / e.slope, fun lam hlam => ?_⟩
      rw [value_eq_add e lam _, value_of_fallsToZero? le_rfl hfalls, zero_add]
      exact mul_nonneg (sub_nonneg.2 hlam) hslope.le
    · refine ⟨0, fun lam _ => ?_⟩
      -- A constant one has the same value everywhere.
      unfold value
      rw [hslope, mul_zero, add_zero]
      exact hconst
  · rintro ⟨low, hlow⟩
    have hvalue := hlow low le_rfl
    rcases lt_trichotomy e.slope 0 with hneg | hzero | hpos
    · -- A function that falls is negative far enough to the right.
      have hfar : low ≤ low + (e.value low + 1) / -e.slope :=
        le_add_of_nonneg_right (div_nonneg (by linarith) (neg_nonneg.2 hneg.le))
      have hnonneg := hlow _ hfar
      have hstep : (e.value low + 1) / -e.slope * e.slope = -(e.value low + 1) := by
        rw [div_neg, neg_mul, div_mul_cancel₀ _ hneg.ne]
      rw [value_eq_add e _ low, add_sub_cancel_left, hstep] at hnonneg
      -- Far to the right its value would be `-1`.
      linarith
    · -- A constant function is judged by any of its values.
      unfold value at hvalue
      rw [hzero, mul_zero, add_zero] at hvalue
      exact .inr ⟨hzero, hvalue⟩
    · exact .inl hpos

/-- A function that is nonnegative for all large `lam` is so just down to its crossing. -/
theorem value_nonneg_iff_of_nonnegAtInfinity (h : e.nonnegAtInfinity 0 0 = true) :
    0 ≤ e.value lam ↔ ∀ c, e.fallsToZero? 0 = some c → c ≤ lam := by
  obtain ⟨low, hlow⟩ := nonnegAtInfinity_zero_iff_exists.1 h
  exact value_nonneg_iff_of_le (hlow _ (le_max_right lam low)) (le_max_left lam low)

/-- A function is accepted from `lam` on without tolerance exactly where it is nonnegative there. -/
theorem nonnegAbove_zero_iff :
    e.nonnegAbove lam 0 = true ↔ ∀ mu, lam ≤ mu → 0 ≤ e.value mu := by
  unfold nonnegAbove
  rw [Bool.and_eq_true, decide_eq_true_eq, neg_zero]
  constructor
  · -- Beyond its last crossing nothing becomes negative again.
    rintro ⟨hlarge, hlam⟩ mu hle
    have hcross := (value_nonneg_iff_of_nonnegAtInfinity hlarge).1 hlam
    exact (value_nonneg_iff_of_nonnegAtInfinity hlarge).2 fun c hc => (hcross c hc).trans hle
  · intro h
    exact ⟨nonnegAtInfinity_zero_iff_exists.2 ⟨lam, h⟩, h lam le_rfl⟩

end Affine

namespace AffineVector

variable {m n k : ℕ}

/-- The entries of a value are the values of the entries. -/
theorem entries_value (v : AffineVector ℚ n) (lam : ℚ) :
    entries (v.value lam) = fun i => (v.get i).value lam := by
  funext i
  simp

/-- The value is the constants plus `lam` times the slopes. -/
theorem entries_value_eq_add (v : AffineVector ℚ n) (lam : ℚ) :
    entries (v.value lam) = entries v.constant + lam • entries v.slope := by
  funext i
  rw [entries_value]
  rfl

/-- A fixed vector has the same value everywhere. -/
theorem entries_value_fixed (v : Vector ℚ n) (lam : ℚ) :
    entries ((fixed v).value lam) = entries v := by
  funext i
  simp [Affine.value]

/-- A vector is transformed as a whole or value by value. -/
theorem entries_value_transform (v : AffineVector ℚ n) (A : Mat ℚ k n) (lam : ℚ) :
    entries ((v.transform A).value lam) = A.toMatrix *ᵥ entries (v.value lam) := by
  rw [entries_value_eq_add, entries_value_eq_add, Matrix.mulVec_add, Matrix.mulVec_smul,
    ← Mat.entries_mulVec, ← Mat.entries_mulVec]
  rfl

/-- A row is transformed as a whole or value by value. -/
theorem entries_value_transformRow (v : AffineVector ℚ n) (A : Mat ℚ n k) (lam : ℚ) :
    entries ((v.transformRow A).value lam) = entries (v.value lam) ᵥ* A.toMatrix := by
  rw [entries_value_eq_add, entries_value_eq_add, Matrix.add_vecMul, Matrix.smul_vecMul,
    ← Mat.entries_vecMul, ← Mat.entries_vecMul]
  rfl

/-- Constants are taken along with their entries. -/
theorem entries_constant_take (v : AffineVector ℚ n) (js : Vector (Fin n) k) :
    entries (v.take js).constant = entries v.constant ∘ entries js := by
  funext i
  exact congrArg Affine.constant (v.get_take js i)

/-- Slopes are taken along with their entries. -/
theorem entries_slope_take (v : AffineVector ℚ n) (js : Vector (Fin n) k) :
    entries (v.take js).slope = entries v.slope ∘ entries js := by
  funext i
  exact congrArg Affine.slope (v.get_take js i)

/-- Taking entries commutes with taking the value. -/
theorem entries_value_take (v : AffineVector ℚ n) (js : Vector (Fin n) k) (lam : ℚ) :
    entries ((v.take js).value lam) = entries (v.value lam) ∘ entries js := by
  funext i
  simp

end AffineVector

end ParametricLP
