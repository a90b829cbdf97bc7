import Mathlib
import ParametricLP.Proofs.Run.Map
import ParametricLP.Proofs.Tableau.Reorder
import ParametricLP.Proofs.Tableau.Segment

/-!
# Ties are resolved by columns

A row enters a selection under the column that it holds, and a valid tableau holds every column once.
So the candidates for the next breakpoint all have different keys, and so have the rows that may be
left. Listing the rows in another order lists the same candidates in another order, and the same one
is selected.

## Key results

- `Valid.nextBreakpoint_reorder`: the next breakpoint
- `entering_reorder`, `Valid.leaving_reorder`: the ratio tests
- `startFault?_reorder_eq_none_iff`: the check of the starting tableau
-/

namespace ParametricLP

variable {m n : ℕ}

/-- Tableaus of the reordered problem, and the rows that their crossings name. -/
def Translation.reorder (π σ : Equiv.Perm (Fin m)) : Translation ℚ m n where
  tableau t := t.reorder π σ
  crossing
    | .primal row => .primal (σ.symm row)
    | .dual column => .dual column
  basis basis := permuted basis σ
  basis_tableau _ := rfl

namespace Tableau

variable {p : Instance ℚ m n} {t : Tableau ℚ m n} {tol lam : ℚ} (π σ : Equiv.Perm (Fin m))

/-! ## The next breakpoint -/

/-- What crosses keeps its column under its new name. -/
theorem crossingColumn_reorder (t : Tableau ℚ m n) (c : Crossing m n) :
    (t.reorder π σ).crossingColumn ((Translation.reorder π σ).crossing c) = t.crossingColumn c := by
  cases c with
  | primal row =>
    show (permuted t.basis σ)[σ.symm row] = t.basis[row]
    rw [getElem_permuted, σ.apply_symm_apply]
  | dual column => rfl

/-- Where the basic value of one row falls to zero, if it rises with `lam`. -/
def rowCrossing? (tol : ℚ) (t : Tableau ℚ m n) (row : Fin m) : Option (Breakpoint ℚ m n) :=
  ((t.values.get row).fallsToZero? (Scalar.tolerance tol t.values.slope)).map (⟨·, .primal row⟩)

/-- The crossings of the rows are listed row by row. -/
theorem rowCrossings_eq_filterMap (tol : ℚ) (t : Tableau ℚ m n) :
    t.rowCrossings tol = (List.finRange m).filterMap (t.rowCrossing? tol) := rfl

/-- Row `i` of the reordered tableau has the crossing that row `σ i` had before. -/
theorem rowCrossing?_reorder (tol : ℚ) (t : Tableau ℚ m n) (i : Fin m) :
    (t.reorder π σ).rowCrossing? tol i =
      (t.rowCrossing? tol (σ i)).map (Breakpoint.map (.reorder π σ)) := by
  have hrow (lam : ℚ) : (⟨lam, .primal i⟩ : Breakpoint ℚ m n) =
      Breakpoint.map (.reorder π σ) ⟨lam, .primal (σ i)⟩ := by
    show _ = (⟨lam, .primal (σ.symm (σ i))⟩ : Breakpoint ℚ m n)
    rw [σ.symm_apply_apply]
  unfold rowCrossing?
  rw [values_reorder, AffineVector.slope_permute, Scalar.tolerance_permuted,
    AffineVector.get_permute, Option.map_map]
  exact congrArg (fun f => Option.map f _) (funext hrow)

/-- The crossings of the rows are the same ones in another order. -/
theorem rowCrossings_reorder (tol : ℚ) (t : Tableau ℚ m n) :
    ((t.reorder π σ).rowCrossings tol).Perm
      ((t.rowCrossings tol).map (Breakpoint.map (.reorder π σ))) := by
  have hrows : (t.reorder π σ).rowCrossing? tol =
      (fun i => (t.rowCrossing? tol i).map (Breakpoint.map (.reorder π σ))) ∘ σ :=
    funext (rowCrossing?_reorder π σ tol t)
  rw [rowCrossings_eq_filterMap, rowCrossings_eq_filterMap, List.map_filterMap, hrows,
    ← List.filterMap_map]
  exact (Equiv.Perm.map_finRange_perm σ).filterMap _

/-- The crossings of the columns are the same ones in the same order. -/
theorem columnCrossings_reorder (tol : ℚ) (t : Tableau ℚ m n) :
    (t.reorder π σ).columnCrossings tol =
      (t.columnCrossings tol).map (Breakpoint.map (.reorder π σ)) := by
  unfold columnCrossings
  dsimp only
  rw [List.map_filterMap]
  refine congrArg (fun f => List.filterMap f t.nonbasic) (funext fun j => ?_)
  rw [Option.map_map]
  rfl

/-- What falls to zero determines where it does. -/
theorem eq_of_crossing_eq (htol : 0 ≤ tol) {b b' : Breakpoint ℚ m n}
    (h : b ∈ t.rowCrossings tol ++ t.columnCrossings tol)
    (h' : b' ∈ t.rowCrossings tol ++ t.columnCrossings tol)
    (hcrossing : b.crossing = b'.crossing) : b = b' := by
  obtain ⟨⟨_, -, hlam⟩, -⟩ := crossed_of_mem htol h
  obtain ⟨⟨_, -, hlam'⟩, -⟩ := crossed_of_mem htol h'
  rw [← hcrossing] at hlam'
  -- Both positions are the zero of the same affine function.
  have hlam_eq : b.lam = b'.lam :=
    (Affine.fallsToZero?_eq_some_iff.1 hlam).2.symm.trans (Affine.fallsToZero?_eq_some_iff.1 hlam').2
  cases b
  cases b'
  rw [Breakpoint.mk.injEq]
  exact ⟨hlam_eq, hcrossing⟩

/-- A column of the basis is a candidate as its row only. -/
theorem Valid.basis_ne_of_mem (ht : t.Valid p) (htol : 0 ≤ tol) {b : Breakpoint ℚ m n}
    (h : b ∈ t.rowCrossings tol ++ t.columnCrossings tol) {column : Fin n}
    (hb : b.crossing = .dual column) (row : Fin m) : t.basis[row] ≠ column := by
  intro heq
  have hmem := (crossed_of_mem htol h).2 column hb
  exact ht.mem_nonbasic_iff.1 hmem (mem_iff_exists_entries.2 ⟨row, heq⟩)

/-- Candidates for the next breakpoint of a valid tableau have different columns. -/
theorem Valid.eq_of_crossingColumn_eq (ht : t.Valid p) (htol : 0 ≤ tol) {b b' : Breakpoint ℚ m n}
    (h : b ∈ t.rowCrossings tol ++ t.columnCrossings tol)
    (h' : b' ∈ t.rowCrossings tol ++ t.columnCrossings tol)
    (hcolumn : t.crossingColumn b.crossing = t.crossingColumn b'.crossing) : b = b' := by
  refine eq_of_crossing_eq htol h h' ?_
  -- A row and a column cannot share a key, because a column of the basis is no candidate.
  cases hb : b.crossing with
  | primal row =>
    rw [hb] at hcolumn
    cases hb' : b'.crossing with
    | primal row' =>
      rw [hb'] at hcolumn
      rw [ht.basis_injective hcolumn]
    | dual column' =>
      rw [hb'] at hcolumn
      exact absurd hcolumn (ht.basis_ne_of_mem htol h' hb' row)
  | dual column =>
    rw [hb] at hcolumn
    cases hb' : b'.crossing with
    | primal row' =>
      rw [hb'] at hcolumn
      exact absurd hcolumn.symm (ht.basis_ne_of_mem htol h hb row')
    | dual column' =>
      rw [hb'] at hcolumn
      exact congrArg Crossing.dual hcolumn

/-- The next breakpoint of the reordered tableau is the same one, with its row renamed. -/
theorem Valid.nextBreakpoint_reorder (ht : t.Valid p) (htol : 0 ≤ tol) :
    (t.reorder π σ).nextBreakpoint tol =
      (t.nextBreakpoint tol).map (Breakpoint.map (.reorder π σ)) := by
  have hperm : ((t.reorder π σ).rowCrossings tol ++ (t.reorder π σ).columnCrossings tol).Perm
      ((t.rowCrossings tol ++ t.columnCrossings tol).map (Breakpoint.map (.reorder π σ))) := by
    rw [List.map_append, columnCrossings_reorder]
    exact (rowCrossings_reorder π σ tol t).append_right _
  have hkey (b : Breakpoint ℚ m n) : (t.reorder π σ).crossingColumn
      (b.map (.reorder π σ)).crossing = t.crossingColumn b.crossing :=
    crossingColumn_reorder π σ t b.crossing
  unfold nextBreakpoint
  rw [← Selection.argmax_perm hperm.symm, Selection.argmax_map]
  · exact congrArg (fun key => Choice.map _ (Selection.argmax tol _ key _)) (funext hkey)
  · -- The keys are the columns, under the new names as under the old ones.
    intro b hb b' hb' heq
    obtain ⟨c, hc, rfl⟩ := List.mem_map.1 hb
    obtain ⟨c', hc', rfl⟩ := List.mem_map.1 hb'
    rw [hkey, hkey] at heq
    rw [ht.eq_of_crossingColumn_eq htol hc hc' heq]

/-! ## The ratio tests -/

/-- In the row's new place the same column enters. -/
theorem entering_reorder (p : Instance ℚ m n) (tol lam : ℚ) (t : Tableau ℚ m n) (row : Fin m) :
    (t.reorder π σ).entering (p.reorder π σ) tol lam (σ.symm row) = t.entering p tol lam row := by
  unfold entering
  rw [row_reorder]
  rfl

/-- The rows that can be left are the same ones in another order. -/
theorem leavingCandidates_permuted (tol : ℚ) (direction : Vector ℚ m) :
    (leavingCandidates tol (permuted direction σ)).Perm
      ((leavingCandidates tol direction).map σ.symm) := by
  let falls := fun i : Fin m => decide (Scalar.tolerance tol direction < direction[i])
  have hfilter : leavingCandidates tol (permuted direction σ) =
      (List.finRange m).filter (falls ∘ σ) := by
    unfold leavingCandidates
    rw [Scalar.tolerance_permuted]
    simp only [getElem_permuted]
    rfl
  have hmap : (leavingCandidates tol direction).map σ.symm =
      ((List.finRange m).map σ.symm).filter (falls ∘ σ) := by
    rw [List.filter_map, Function.comp_assoc, Equiv.self_comp_symm, Function.comp_id]
    rfl
  -- Filtering the rows under their new names is filtering them in another order.
  rw [hfilter, hmap]
  exact (Equiv.Perm.map_finRange_perm σ.symm).symm.filter _

/-- The same row is left, under its new name. -/
theorem Valid.leaving_reorder (ht : t.Valid p) (tol lam : ℚ) (column : Fin n) :
    (t.reorder π σ).leaving (p.reorder π σ) tol lam column =
      (t.leaving p tol lam column).map σ.symm := by
  have hperm := leavingCandidates_permuted σ tol (t.column p column)
  unfold leaving
  rw [column_reorder, ← Selection.argmin_perm hperm.symm, Selection.argmin_map]
  · -- Rows are read off under the names that they had before.
    simp only [Function.comp_def, values_reorder, basis_reorder, AffineVector.get_permute,
      getElem_permuted, σ.apply_symm_apply]
  -- Rows that hold the same column are the same row.
  · intro i _ j _ heq
    exact (ht.reorder π σ).basis_injective heq

/-! ## The starting tableau -/

/-- No basic value is blamed in the new order if none was in the old. -/
theorem primalStartFault?_reorder_eq_none_iff (tol : ℚ) (t : Tableau ℚ m n) :
    (t.reorder π σ).primalStartFault? tol = none ↔ t.primalStartFault? tol = none := by
  rw [primalStartFault?_eq_none_iff, primalStartFault?_eq_none_iff]
  simp only [values_reorder, AffineVector.constant_permute, AffineVector.slope_permute,
    Scalar.tolerance_permuted, AffineVector.get_permute]
  exact (σ.surjective.forall (p := fun i => (t.values.get i).nonnegAtInfinity _ _ = true)).symm

/-- The reordered start is accepted exactly where the start was. -/
theorem startFault?_reorder_eq_none_iff (tol : ℚ) (t : Tableau ℚ m n) :
    (t.reorder π σ).startFault? tol = none ↔ t.startFault? tol = none := by
  rw [startFault?_eq_none_iff, startFault?_eq_none_iff, primalStartFault?_reorder_eq_none_iff]
  rfl

end Tableau

end ParametricLP
