import Mathlib
import ParametricLP.Reduction.Basic

/-!
# Small problems

Problems and data that are small enough to follow by hand. The results of several modules are applied
to them, each to show that what it asks for can be had.
-/

namespace ParametricLP

/-- An answer of which something has been computed is one that was not refused. -/
theorem exists_of_map_toOption {ε α β : Type} {answer : Except ε α} {f : α → β} {b : β}
    (h : answer.toOption.map f = some b) : ∃ a, answer = .ok a ∧ f a = b := by
  cases answer with
  | error cause => exact nomatch h
  | ok a => exact ⟨a, rfl, Option.some.inj h⟩

/-- One constraint, and two columns that cost the same at `lam = 2`. -/
def twoSegments : Instance ℚ 1 2 where
  matrix := #v[#v[1, 1]]
  rhs := ⟨#v[1], #v[0]⟩
  cost := ⟨#v[0, 2], #v[1, 0]⟩
  basis := #v[Fin.last 1]
  rows_pos := by decide
  basis_injective := by decide

/-- One constraint, and three columns of which each is cheapest on a segment of its own. -/
def threeSegments : Instance ℚ 1 3 where
  matrix := #v[#v[1, 1, 1]]
  rhs := ⟨#v[1], #v[0]⟩
  cost := ⟨#v[4, 1, 0], #v[0, 1, 2]⟩
  basis := #v[0]
  rows_pos := by decide
  basis_injective := by decide

/-- One row whose value is zero at `lam = 1`, where the two other columns cost the same. Just below
    the last one costs less, so it has to enter first. -/
def steepTie : Instance ℚ 1 3 where
  matrix := #v[#v[1, -1, -1]]
  rhs := ⟨#v[-1], #v[1]⟩
  cost := ⟨#v[0, 1, 0], #v[0, 0, 1]⟩
  basis := #v[0]
  rows_pos := by decide
  basis_injective := by decide

/-- A problem with parallel columns, of which a basis can hold one at most. -/
def Session.parallelColumns : Instance ℚ 2 5 where
  matrix := #v[#v[1, 0, 1, 2, 3], #v[0, 1, 1, 2, 3]]
  rhs := ⟨#v[1, 1], #v[0, 0]⟩
  cost := ⟨#v[0, 0, 1, 1, 1], #v[1, 1, 0, 0, 0]⟩
  basis := #v[0, 1]
  rows_pos := by decide
  basis_injective := by decide

/-- Three labelled observations of one feature, a design for every kind of reduction. -/
def threeObservations : AnyDesign ℚ :=
  ⟨3, 1, #v[#v[3], #v[2], #v[-1]], #v[1, 1, -1]⟩

end ParametricLP
