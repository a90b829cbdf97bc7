import Mathlib
import ParametricLP.Reduction.Projection

/-!
# Reading coefficients off a solution

A reduction whose columns start with the positive and then the negative parts of `d` coefficients,
followed at once by the intercept pair if there is one, reads coefficient `j` off as the difference
of columns `j` and `d + j`. No solution that is long enough is refused.

## Key results

- `Slice.select?_between`: a range between two positions is that part of the list
- `StartsWithFit.project_of_false`, `StartsWithFit.project_of_true`: what is read off a solution
-/

namespace ParametricLP

/-! ## Ranges of positions -/

namespace Slice

variable {β : Type}

/-- A position within the list is not clamped. -/
theorem clamp_natCast {n k : ℕ} (h : k ≤ n) : clamp n 0 n k = k := by
  simp only [clamp]
  split <;> split <;> omega

/-- The positions from `a` on, `k` of them. -/
theorem indices?_between {n a k : ℕ} (h : a + k ≤ n) :
    (between a (a + k : ℕ)).indices? n =
      some (List.ofFn fun i : Fin k => (⟨a + i, by omega⟩ : Fin n)) := by
  simp only [between, indices?, Option.getD_none, one_ne_zero, ↓reduceIte, zero_lt_one,
    Option.map_some, Option.getD_some, clamp_natCast h, clamp_natCast (show a ≤ n by omega),
    Option.some.injEq]
  -- There are `k` steps of one from `a` to `a + k`.
  have hcount : ((((a + k : ℕ) : ℤ) - a + 1 - 1) / 1).toNat = k := by omega
  rw [hcount, List.ofFn_eq_map, ← List.map_coe_finRange_eq_range, List.filterMap_map,
    ← List.filterMap_eq_map]
  congr 1
  funext i
  have hi : 0 ≤ (a : ℤ) + 1 * i ∧ (a : ℤ) + 1 * i < n := by omega
  simp only [Function.comp_apply, dif_pos hi, Option.some.injEq, Fin.mk.injEq]
  omega

/-- What a range selects from a list that is long enough. -/
theorem select?_between {x : List β} {a k : ℕ} (h : a + k ≤ x.length) :
    (between a (a + k : ℕ)).select? x =
      some (List.ofFn fun i : Fin k => x.get ⟨a + i, by omega⟩) := by
  rw [select?, indices?_between h, Option.map_some, List.map_ofFn]
  rfl

end Slice

/-! ## Projections -/

namespace Reduction

variable {m n d : ℕ} {r : Reduction ℚ m n} {intercept : Bool}

/-- The columns start with the parts of `d` coefficients and, if there is one, of an intercept. -/
structure StartsWithFit (r : Reduction ℚ m n) (d : ℕ) (intercept : Bool) : Prop where
  offset_eq : r.offset = 0
  features_eq : r.features = d
  intercept_eq : r.intercept = if intercept then some (2 * (d : ℤ), 2 * (d : ℤ) + 1) else none

namespace StartsWithFit

/-- Coefficient `j` is the difference of columns `j` and `d + j`. -/
theorem differences_eq (hr : r.StartsWithFit d intercept) (h : d + d ≤ n) (z : Vector ℚ n) :
    r.differences (· - ·) z.toList =
      .ok (List.ofFn fun j : Fin d => z[(j : ℕ)] - z[d + j]) := by
  have hlength : z.toList.length = n := Vector.length_toList
  have hplus := Slice.select?_between (x := z.toList) (a := 0) (k := d) (by omega)
  have hminus := Slice.select?_between (x := z.toList) (a := d) (k := d) (by omega)
  -- The bounds of both ranges are numbers of columns.
  have hoffset := hr.offset_eq
  have hfeatures := hr.features_eq
  have hstart : ((0 : ℕ) : ℤ) = r.offset := by omega
  have hmiddle : ((0 + d : ℕ) : ℤ) = r.offset + r.features := by omega
  have hmiddle' : ((d : ℕ) : ℤ) = r.offset + r.features := by omega
  have hstop : ((d + d : ℕ) : ℤ) = r.offset + 2 * r.features := by omega
  rw [hstart, hmiddle] at hplus
  rw [hmiddle', hstop] at hminus
  unfold differences
  dsimp only
  rw [hplus, hminus, Option.getD_some, Option.getD_some]
  rw [stretchWith?_of_length_eq (by rw [List.length_ofFn, List.length_ofFn])]
  apply congrArg Except.ok
  apply List.ext_getElem
  · simp only [List.length_zipWith, List.length_ofFn, min_self]
  · intro j hj hj'
    simp only [List.getElem_zipWith, List.getElem_ofFn, List.get_eq_getElem, Vector.getElem_toList,
      Nat.zero_add]

/-- An entry is found at its position. -/
theorem entryAt_natCast (z : Vector ℚ n) {j : ℕ} (h : j < n) :
    entryAt z.toList (j : ℤ) = .ok z[j] := by
  have hlength : j < z.toList.length := by simpa using h
  simp [entryAt, resolve?_natCast hlength]

/-- What is read off where there is no intercept. -/
theorem project_of_false (hr : r.StartsWithFit d false) (h : d + d ≤ n) (z : Vector ℚ n) :
    r.project z.toList = .ok ⟨List.ofFn fun j : Fin d => z[(j : ℕ)] - z[d + j], none⟩ := by
  simp only [project, hr.differences_eq h, hr.intercept_eq]
  rfl

/-- What is read off where there is one. -/
theorem project_of_true (hr : r.StartsWithFit d true) (h : d + d + 1 < n) (z : Vector ℚ n) :
    r.project z.toList = .ok ⟨List.ofFn fun j : Fin d => z[(j : ℕ)] - z[d + j],
      some (z[d + d] - z[d + d + 1])⟩ := by
  have hplus := entryAt_natCast z (show d + d < n by omega)
  have hminus := entryAt_natCast z h
  -- The two columns of the intercept follow those of the coefficients.
  have hcast : ((d + d : ℕ) : ℤ) = 2 * d := by omega
  have hcast' : ((d + d + 1 : ℕ) : ℤ) = 2 * d + 1 := by omega
  rw [hcast] at hplus
  rw [hcast'] at hminus
  simp only [project, hr.differences_eq (show d + d ≤ n by omega), hr.intercept_eq, ↓reduceIte,
    bind, Except.bind, hplus, hminus]
  rfl

end StartsWithFit

end Reduction

end ParametricLP
