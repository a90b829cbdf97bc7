import Mathlib
import ParametricLP.Proofs.Rational

/-!
# Small tolerances

A comparison with a tolerance agrees with the plain one once the tolerance is small enough for the
two numbers compared. Claims of this kind are written `∀ᶠ tol in 𝓝[>] 0, …`: the property holds for
every positive `tol` up to some bound. Finitely many of them hold together.

## Key results

- `eventually_nhdsGT_zero_iff`: what the filter says in terms of a bound
- `eventually_mul_lt_iff`: a scaled tolerance separates a number from zero
- `eventually_filter_eq`: filtering a list by a tolerance is filtering it exactly
-/

namespace ParametricLP

open Filter Topology

/-- A property holds for all small positive tolerances exactly where it does so up to a bound. -/
theorem eventually_nhdsGT_zero_iff {P : ℚ → Prop} :
    (∀ᶠ tol in 𝓝[>] 0, P tol) ↔ ∃ tol₀, 0 < tol₀ ∧ ∀ tol, 0 < tol → tol ≤ tol₀ → P tol := by
  rw [Filter.Eventually, mem_nhdsGT_iff_exists_Ioc_subset]
  exact ⟨fun ⟨u, hu, h⟩ => ⟨u, hu, fun tol h0 hle => h ⟨h0, hle⟩⟩,
    fun ⟨u, hu, h⟩ => ⟨u, hu, fun tol htol => h tol htol.1 htol.2⟩⟩

/-- A small multiple of the tolerance lies below a number exactly where the number is positive. -/
theorem eventually_mul_lt_iff {scale : ℚ} (hscale : 0 < scale) (x : ℚ) :
    ∀ᶠ tol in 𝓝[>] 0, tol * scale < x ↔ 0 < x := by
  rw [eventually_nhdsGT_zero_iff]
  by_cases hx : 0 < x
  -- Half of the quotient is a bound below which the product stays under a positive number.
  · refine ⟨x / scale / 2, by positivity, fun tol _ hle => ?_⟩
    have hlt : tol < x / scale := lt_of_le_of_lt hle (half_lt_self (by positivity))
    exact ⟨fun _ => hx, fun _ => (lt_div_iff₀ hscale).1 hlt⟩
  · -- A positive product does not lie below a number that is not positive.
    refine ⟨1, one_pos, fun tol htol _ => ?_⟩
    have hpos : 0 < tol * scale := mul_pos htol hscale
    exact ⟨fun h => hpos.trans h, fun h => absurd h hx⟩

/-- A tolerance relative to a vector separates a number from zero once `tol` is small. -/
theorem eventually_tolerance_lt_iff {n : ℕ} (v : Vector ℚ n) (x : ℚ) :
    ∀ᶠ tol in 𝓝[>] 0, Scalar.tolerance tol v < x ↔ Scalar.tolerance 0 v < x := by
  have hscale : 0 < Scalar.atLeastOne (Scalar.maxAbs v) :=
    lt_of_lt_of_le one_pos (Scalar.one_le_atLeastOne _)
  filter_upwards [eventually_mul_lt_iff hscale x] with tol htol
  rw [Scalar.tolerance_zero]
  exact htol

/-- A number exceeds another by no more than a small multiple of the tolerance exactly where it
    does not exceed it. -/
theorem eventually_le_add_iff {scale : ℚ} (hscale : 0 < scale) (x y : ℚ) :
    ∀ᶠ tol in 𝓝[>] 0, x ≤ y + tol * scale ↔ x ≤ y := by
  filter_upwards [eventually_mul_lt_iff hscale (x - y)] with tol htol
  rw [sub_pos, lt_sub_iff_add_lt'] at htol
  rw [← not_lt, ← not_lt, htol]

/-- A property of a tolerance and a candidate that agrees with the exact one for each candidate
    does so for all candidates of a list together. -/
theorem eventually_filter_eq {ι : Type} {P : ℚ → ι → Bool} (is : List ι)
    (h : ∀ i, ∀ᶠ tol in 𝓝[>] 0, P tol i = P 0 i) :
    ∀ᶠ tol in 𝓝[>] 0, is.filter (P tol) = is.filter (P 0) := by
  -- A list is finite, so one bound serves all of its candidates.
  have hall : ∀ᶠ tol in 𝓝[>] 0, ∀ i ∈ {i | i ∈ is}, P tol i = P 0 i :=
    (Filter.eventually_all_finite is.finite_toSet).2 fun i _ => h i
  filter_upwards [hall] with tol htol
  exact List.filter_congr htol

end ParametricLP
