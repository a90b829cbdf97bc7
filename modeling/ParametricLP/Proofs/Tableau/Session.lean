import Mathlib
import ParametricLP.Tableau.Session
import ParametricLP.Proofs.Tableau.Pivot
import ParametricLP.Proofs.Samples

/-!
# Calls on a tableau

A session is driven by calls in any order. What a call may ask for is little: the entering column is
not held by another row, and an inverse that is to be corrected has a nonzero entry to be corrected
with. A call that fails leaves everything behind that follows from the inverse as it was, so the
basis and the inverse no longer belong together. The count of corrections says so: it has reached the
number at which the inverse is computed afresh, and stays there until a call succeeds in doing that.

## Key results

- `Session.Kept.call`: what every call keeps, whether it fails or not
- `Valid.consistent`: what a valid tableau shows of its problem
- `Session.call_consistent_or_untouched`: what any call does after any sequence of calls
-/

namespace ParametricLP

open Matrix

variable {m n : ℕ} {p : Instance ℚ m n}

/-! ## Tableaus that follow from their basis -/

namespace Tableau

variable {t t' : Tableau ℚ m n}

/-- The columns held are distinct and marked, the inverse is theirs, and values, multipliers and
    reduced costs are those that follow, constants and slopes alike. -/
structure Consistent (p : Instance ℚ m n) (t : Tableau ℚ m n) : Prop where
  basis_injective : ∀ i k : Fin m, t.basis[i] = t.basis[k] → i = k
  isBasic_iff : ∀ j : Fin n, t.isBasic[j] = true ↔ j ∈ t.basis
  inverse_mul : t.inverse.toMatrix * (p.basisMatrix t.basis).toMatrix = 1
  mul_inverse : (p.basisMatrix t.basis).toMatrix * t.inverse.toMatrix = 1
  values_constant : entries t.values.constant = t.inverse.toMatrix *ᵥ entries p.rhs.constant
  values_slope : entries t.values.slope = t.inverse.toMatrix *ᵥ entries p.rhs.slope
  duals_constant : entries t.duals.constant =
    t.inverse.toMatrixᵀ *ᵥ (entries p.cost.constant ∘ entries t.basis)
  duals_slope : entries t.duals.slope =
    t.inverse.toMatrixᵀ *ᵥ (entries p.cost.slope ∘ entries t.basis)
  reducedCosts_constant : entries t.reducedCosts.constant =
    entries p.cost.constant - p.matrix.toMatrixᵀ *ᵥ entries t.duals.constant
  reducedCosts_slope : entries t.reducedCosts.slope =
    entries p.cost.slope - p.matrix.toMatrixᵀ *ᵥ entries t.duals.slope
  reducedCosts_basis : ∀ i : Fin m, t.reducedCosts.get t.basis[i] = ⟨0, 0⟩
  row_eq_column : ∀ (i : Fin m) (j : Fin n), (t.row p i)[j] = (t.column p j)[i]
  column_basis : ∀ i : Fin m, entries (t.column p t.basis[i]) = Pi.single i 1

/-- The reduced costs held are costs less prices on the basis as well, where they are set to zero. -/
theorem Valid.get_reducedCosts_eq_sub (ht : t.Valid p) (j : Fin n) :
    t.reducedCosts.get j = (p.cost.get j).sub ((t.duals.transformRow p.matrix).get j) := by
  refine Affine.ext_value fun lam => ?_
  have hprice := AffineVector.entries_value_transformRow t.duals p.matrix lam
  rw [AffineVector.entries_value] at hprice
  -- The price that was taken off a basic column equals its cost.
  rw [ht.value_reducedCosts, Instance.getElem_reducedCosts, Affine.value_sub, congrFun hprice j,
    getElem_fin, AffineVector.getElem_value]
  rfl

/-- The column of a row of the basis is a unit vector. -/
theorem Valid.column_basis (ht : t.Valid p) (i : Fin m) :
    entries (t.column p t.basis[i]) = Pi.single i 1 := by
  funext k
  rw [entries_apply, ← getElem_row, ht.row_basis, Pi.single_apply]

/-- All that a valid tableau holds follows from its basis. -/
theorem Valid.consistent (ht : t.Valid p) : t.Consistent p where
  basis_injective _ _ h := ht.basis_injective h
  isBasic_iff j := by rw [ht.isBasic_iff, mem_iff_exists_entries]
  inverse_mul := by
    rw [Instance.basisMatrix, Mat.toMatrix_columns]
    exact ht.inverse_mul
  mul_inverse := by
    rw [Instance.basisMatrix, Mat.toMatrix_columns]
    exact ht.mul_inverse
  values_constant := by rw [ht.values_eq]; exact Mat.entries_mulVec ..
  values_slope := by rw [ht.values_eq]; exact Mat.entries_mulVec ..
  duals_constant := by
    rw [ht.duals_eq, mulVec_transpose, ← AffineVector.entries_constant_take]
    exact Mat.entries_vecMul ..
  duals_slope := by
    rw [ht.duals_eq, mulVec_transpose, ← AffineVector.entries_slope_take]
    exact Mat.entries_vecMul ..
  reducedCosts_constant := by
    -- Constants and slopes of the reduced costs are compared entry by entry.
    funext j
    have h := congrArg Affine.constant (ht.get_reducedCosts_eq_sub j)
    rw [mulVec_transpose, ← Mat.entries_vecMul]
    exact h
  reducedCosts_slope := by
    funext j
    have h := congrArg Affine.slope (ht.get_reducedCosts_eq_sub j)
    rw [mulVec_transpose, ← Mat.entries_vecMul]
    exact h
  reducedCosts_basis i := by
    have hmem : t.basis[i] ∈ t.basis := mem_iff_exists_entries.2 ⟨i, rfl⟩
    rw [ht.get_reducedCosts, if_pos hmem]
  row_eq_column := getElem_row t
  column_basis := ht.column_basis

end Tableau

namespace Tableau

variable {t t' : Tableau ℚ m n}

/-- An inverse computed afresh has no corrections. -/
theorem updates_of_refactor (h : t.refactor p = .ok t') : t'.updates = 0 := by
  simp only [refactor, Except.map] at h
  split at h
  · cases h
  · simp only [Except.ok.injEq] at h
    subst h
    rfl

/-- Only a refactorization can fail. -/
theorem le_updates_of_pivot_eq_error {every : ℕ} {row : Fin m} {entering : Fin n}
    {cause : SingularBasis} (h : t.pivot p every row entering = .error cause) :
    every ≤ t.updates + 1 := by
  by_contra hlt
  rw [pivot_of_lt row entering (not_le.1 hlt)] at h
  exact nomatch h

/-- After a pivot that succeeds fewer corrections have been made than the limit. -/
theorem updates_of_pivot {every : ℕ} {row : Fin m} {entering : Fin n} (hevery : 0 < every)
    (h : t.pivot p every row entering = .ok t') : t'.updates < every := by
  rcases Nat.lt_or_ge (t.updates + 1) every with hlt | hle
  · rw [pivot_of_lt row entering hlt] at h
    obtain rfl := Except.ok.inj h
    exact hlt
  · rw [pivot_of_le row entering hle] at h
    rw [updates_of_refactor h]
    exact hevery

end Tableau

namespace Session

variable {s s' : Session ℚ m n} {every : ℤ}

/-! ## Calls -/

/-- A call on a session: `entering` takes the place of the column held by `row`, or the inverse is
    computed afresh. -/
inductive Call (m n : ℕ) where
  | pivot (row : Fin m) (entering : Fin n)
  | refactor

/-- Whether a call succeeds, and the session that it leaves behind. -/
def Call.run (p : Instance ℚ m n) (s : Session ℚ m n) :
    Call m n → Except InverseError Unit × Session ℚ m n
  | .pivot row entering =>
    let (left, s') := s.pivot p row entering
    (left.map fun _ => (), s')
  | .refactor =>
    match s.refactor p with
    | .ok s' => (.ok (), s')
    | .error cause => (.error cause, s)

/-- A column may enter that no other row holds, and an inverse may be corrected by an entry that is
    not zero. -/
def Call.Admissible (p : Instance ℚ m n) (s : Session ℚ m n) : Call m n → Prop
  | .pivot row entering => (∀ i : Fin m, s.tableau.basis[i] = entering → i = row) ∧
      (s.tableau.updates + 1 < s.refactorEvery → (s.tableau.column p entering)[row] ≠ 0)
  | .refactor => True

/-- The sessions that calls lead to from the starting basis of a problem. -/
inductive Reached (p : Instance ℚ m n) (every : ℤ) : Session ℚ m n → Prop where
  | start {s : Session ℚ m n} (hstart : ofInstance p every = .ok s) : Reached p every s
  | call {s : Session ℚ m n} (hs : Reached p every s) {c : Call m n} (hc : c.Admissible p s) :
      Reached p every (c.run p s).2

/-! ## What calls keep -/

/-- The tableau follows from its basis, and an inverse is due later. -/
structure Consistent (p : Instance ℚ m n) (every : ℤ) (s : Session ℚ m n) : Prop where
  tableau : s.tableau.Consistent p
  labels_eq : s.labels = s.tableau.basis.map fun j => (j.val : ℤ)
  updates_lt : (s.tableau.updates : ℤ) < every

/-- What every call keeps: columns are distinct and marked, and the tableau is valid unless its
    inverse is overdue. -/
structure Kept (p : Instance ℚ m n) (every : ℤ) (s : Session ℚ m n) : Prop where
  isBasic_eq : s.tableau.isBasic = Tableau.marks s.tableau.basis
  basis_injective : Function.Injective (entries s.tableau.basis)
  labels_eq : s.labels = s.tableau.basis.map fun j => (j.val : ℤ)
  refactorEvery_eq : (s.refactorEvery : ℤ) = every
  valid_of_lt : s.tableau.updates < s.refactorEvery → s.tableau.Valid p

/-- As long as the inverse is not overdue the tableau follows from its basis. -/
theorem Kept.consistent (h : s.Kept p every) (hlt : s.tableau.updates < s.refactorEvery) :
    s.Consistent p every := by
  refine ⟨(h.valid_of_lt hlt).consistent, h.labels_eq, ?_⟩
  rw [← h.refactorEvery_eq]
  exact_mod_cast hlt

/-- A session that starts is valid, and its inverse is due later. -/
theorem kept_of_ofInstance (hevery : 0 < every) (h : ofInstance p every = .ok s) :
    s.Kept p every ∧ s.tableau.updates < s.refactorEvery := by
  unfold ofInstance at h
  cases hstart : Tableau.start p with
  | error cause =>
    rw [hstart] at h
    exact nomatch h
  | ok t =>
    rw [hstart] at h
    obtain rfl := Except.ok.inj h
    obtain ⟨hvalid, hbasis⟩ := Tableau.valid_of_start hstart
    have hupdates : t.updates = 0 := Tableau.updates_of_refactor hstart
    refine ⟨⟨hvalid.isBasic_eq, hvalid.basis_injective, ?_, ?_, fun _ => hvalid⟩, ?_⟩
    · rw [hbasis]
    · exact Int.toNat_of_nonneg hevery.le
    -- No correction has been made, and the limit is positive.
    · rw [hupdates]
      dsimp only
      omega

/-- What a failed call leaves as it was. -/
structure Untouched (s s' : Session ℚ m n) : Prop where
  refactorEvery_eq : s'.refactorEvery = s.refactorEvery
  inverse_eq : s'.tableau.inverse = s.tableau.inverse
  values_eq : s'.tableau.values = s.tableau.values
  duals_eq : s'.tableau.duals = s.tableau.duals
  reducedCosts_eq : s'.tableau.reducedCosts = s.tableau.reducedCosts

/-- What a failed call has changed: nothing by a refactorization; by a pivot the basis with its marks
    and the count of corrections, so that the next call computes the inverse afresh. -/
def Call.FailsFrom (every : ℤ) (s s' : Session ℚ m n) : Call m n → Prop
  | .pivot row entering => s'.tableau.basis = s.tableau.basis.set row entering row.isLt ∧
      (∀ j : Fin n, s'.tableau.isBasic[j] = true ↔ j ∈ s'.tableau.basis) ∧
      s'.tableau.updates = s.tableau.updates + 1 ∧ every ≤ s'.tableau.updates
  | .refactor => s' = s

/-! ### Pivots -/

/-- A pivot of a session changes the tableau and its labels, and if it fails only the exchange is
    made. -/
theorem run_pivot (p : Instance ℚ m n) (s : Session ℚ m n) (row : Fin m) (entering : Fin n) :
    (Call.pivot row entering).run p s =
      match s.tableau.pivot p s.refactorEvery row entering with
      | .ok tableau => (.ok (), { s with tableau, labels := s.labels.set row entering row.isLt })
      | .error cause => (.error (.singular cause), { s with
          tableau := s.tableau.swap row entering
          labels := s.labels.set row entering row.isLt }) := by
  unfold Call.run pivot
  simp only [resolve?_natCast row.isLt, resolve?_natCast entering.isLt, Fin.eta]
  cases s.tableau.pivot p s.refactorEvery row entering with
  | _ => rfl

/-- The labels follow the basis. -/
theorem Kept.labels_set (h : s.Kept p every) (row : Fin m) (entering : Fin n) :
    s.labels.set row entering row.isLt =
      (s.tableau.basis.set row entering row.isLt).map fun j => (j.val : ℤ) := by
  rw [h.labels_eq, Vector.map_set]

/-- A pivot that succeeds makes the tableau valid, also where it has been invalid before. -/
theorem Kept.valid_of_pivot (h : s.Kept p every) {row : Fin m} {entering : Fin n}
    (hc : (Call.pivot row entering).Admissible p s) {t : Tableau ℚ m n}
    (hpivot : s.tableau.pivot p s.refactorEvery row entering = .ok t) : t.Valid p := by
  by_cases hlt : s.tableau.updates + 1 < s.refactorEvery
  · -- The inverse is corrected, and it is one.
    have hvalid := h.valid_of_lt (Nat.lt_of_succ_lt hlt)
    exact Tableau.valid_of_pivot hvalid (hc.2 hlt) hpivot
  · -- The inverse is computed afresh from the columns held.
    rw [Tableau.pivot_of_le row entering (not_lt.1 hlt)] at hpivot
    have hmarks := Tableau.isBasic_swap h.isBasic_eq h.basis_injective row entering
    exact (Tableau.valid_of_refactor hmarks hpivot).1

/-- A pivot keeps what every call keeps, whether it succeeds or not. -/
theorem Kept.pivot (h : s.Kept p every) {row : Fin m} {entering : Fin n}
    (hc : (Call.pivot row entering).Admissible p s) :
    ((Call.pivot row entering).run p s).2.Kept p every := by
  have hlabels := h.labels_set row entering
  rw [run_pivot]
  cases hpivot : s.tableau.pivot p s.refactorEvery row entering with
  | ok t =>
    have hvalid := h.valid_of_pivot hc hpivot
    refine ⟨hvalid.isBasic_eq, hvalid.basis_injective, ?_, h.refactorEvery_eq, fun _ => hvalid⟩
    dsimp only
    rw [hlabels, Tableau.basis_of_pivot_eq_ok hpivot]
  | error cause =>
    have hle := Tableau.le_updates_of_pivot_eq_error hpivot
    refine ⟨Tableau.isBasic_swap h.isBasic_eq h.basis_injective row entering,
      Tableau.basis_swap_injective h.basis_injective hc.1, hlabels, h.refactorEvery_eq,
      fun hlt => ?_⟩
    -- The count of corrections has reached its limit, and nothing has reset it.
    exact absurd hlt (not_lt.2 hle)

/-- A pivot that fails leaves all but the basis, its marks and the count as they were. -/
theorem Kept.failsFrom_pivot (h : s.Kept p every) {row : Fin m} {entering : Fin n}
    {cause : InverseError} (herror : ((Call.pivot row entering).run p s).1 = .error cause) :
    Untouched s ((Call.pivot row entering).run p s).2 ∧
      (Call.pivot row entering).FailsFrom every s ((Call.pivot row entering).run p s).2 := by
  rw [run_pivot] at herror ⊢
  cases hpivot : s.tableau.pivot p s.refactorEvery row entering with
  | ok t =>
    rw [hpivot] at herror
    exact nomatch herror
  | error cause' =>
    refine ⟨⟨rfl, rfl, rfl, rfl, rfl⟩, rfl, fun j => ?_, rfl, ?_⟩
    · have hmarks := Tableau.isBasic_swap h.isBasic_eq h.basis_injective row entering
      dsimp only
      rw [hmarks, getElem_fin, Tableau.getElem_marks, Vector.contains_iff_mem]
    · rw [← h.refactorEvery_eq]
      exact_mod_cast Tableau.le_updates_of_pivot_eq_error hpivot

/-! ### Refactorizations -/

/-- A refactorization changes the tableau, and if it fails nothing. -/
theorem run_refactor (p : Instance ℚ m n) (s : Session ℚ m n) :
    Call.refactor.run p s =
      match s.tableau.refactor p with
      | .ok tableau => (.ok (), { s with tableau })
      | .error cause => (.error (.singular cause), s) := by
  unfold Call.run refactor
  cases s.tableau.refactor p with
  | _ => rfl

/-- A refactorization keeps what every call keeps. -/
theorem Kept.refactor (h : s.Kept p every) : (Call.refactor.run p s).2.Kept p every := by
  rw [run_refactor]
  cases hrefactor : s.tableau.refactor p with
  | ok t =>
    obtain ⟨hvalid, hbasis⟩ := Tableau.valid_of_refactor h.isBasic_eq hrefactor
    refine ⟨hvalid.isBasic_eq, hvalid.basis_injective, ?_, h.refactorEvery_eq, fun _ => hvalid⟩
    dsimp only
    rw [h.labels_eq, hbasis]
  | error cause => exact h

/-! ## Sequences of calls -/

/-- Every call keeps it. -/
theorem Kept.call (h : s.Kept p every) {c : Call m n} (hc : c.Admissible p s) :
    (c.run p s).2.Kept p every := by
  cases c with
  | pivot row entering => exact h.pivot hc
  | refactor => exact h.refactor

/-- So does any sequence of calls from the starting basis. -/
theorem Reached.kept (hevery : 0 < every) (hs : Reached p every s) : s.Kept p every := by
  induction hs with
  | start hstart => exact (kept_of_ofInstance hevery hstart).1
  | call _ hc ih => exact ih.call hc

/-- After a call that succeeds the inverse is not overdue. -/
theorem Kept.updates_lt (h : s.Kept p every) (hevery : 0 < every) {c : Call m n}
    (hok : (c.run p s).1 = .ok ()) :
    (c.run p s).2.tableau.updates < (c.run p s).2.refactorEvery := by
  have hpos : 0 < s.refactorEvery := by
    have := h.refactorEvery_eq
    omega
  cases c with
  -- A pivot either corrects an inverse that is not due or computes it afresh.
  | pivot row entering =>
    rw [run_pivot] at hok ⊢
    cases hpivot : s.tableau.pivot p s.refactorEvery row entering with
    | ok t => exact Tableau.updates_of_pivot hpos hpivot
    | error cause =>
      rw [hpivot] at hok
      exact nomatch hok
  | refactor =>
    rw [run_refactor] at hok ⊢
    cases hrefactor : s.tableau.refactor p with
    | ok t =>
      dsimp only
      rw [Tableau.updates_of_refactor hrefactor]
      exact hpos
    | error cause =>
      rw [hrefactor] at hok
      exact nomatch hok

/-- A call that fails leaves behind what it should. -/
theorem Kept.failsFrom (h : s.Kept p every) {c : Call m n} {cause : InverseError}
    (herror : (c.run p s).1 = .error cause) :
    Untouched s (c.run p s).2 ∧ c.FailsFrom every s (c.run p s).2 := by
  cases c with
  | pivot row entering => exact h.failsFrom_pivot herror
  | refactor =>
    rw [run_refactor] at herror ⊢
    cases hrefactor : s.tableau.refactor p with
    | ok t =>
      rw [hrefactor] at herror
      exact nomatch herror
    | error cause' => exact ⟨⟨rfl, rfl, rfl, rfl, rfl⟩, rfl⟩

/-- From the starting basis any sequence of calls leads to sessions in which a further call, if it
    succeeds, makes everything follow from the basis, and if it fails, leaves all but the bookkeeping
    of the basis as it was. -/
theorem call_consistent_or_untouched (hevery : 0 < every) (p : Instance ℚ m n) :
    (∀ s, ofInstance p every = .ok s → s.Consistent p every) ∧
      ∀ s, Reached p every s → ∀ c : Call m n, c.Admissible p s →
        ((c.run p s).1 = .ok () → (c.run p s).2.Consistent p every) ∧
          ∀ cause, (c.run p s).1 = .error cause →
            Untouched s (c.run p s).2 ∧ c.FailsFrom every s (c.run p s).2 := by
  refine ⟨fun s hstart => ?_, fun s hs c hc => ?_⟩
  · obtain ⟨hkept, hlt⟩ := kept_of_ofInstance hevery hstart
    exact hkept.consistent hlt
  · have hkept := hs.kept hevery
    exact ⟨fun hok => (hkept.call hc).consistent (hkept.updates_lt hevery hok),
      fun cause herror => hkept.failsFrom herror⟩

/-- Whether a call may be made can be computed. -/
instance decidableAdmissible (p : Instance ℚ m n) (s : Session ℚ m n) :
    (c : Call m n) → Decidable (c.Admissible p s)
  | .pivot _ _ => inferInstanceAs (Decidable (_ ∧ _))
  | .refactor => inferInstanceAs (Decidable True)

/-- After a correction, a pivot fails that would hold two of these columns together, and the one after
    it recovers. -/
theorem call_consistent_or_untouched_parallelColumns :
    (0 : ℤ) < 2 ∧ ∃ s, Reached parallelColumns 2 s ∧
    ∃ cause s', (Call.pivot 1 3).run parallelColumns s = (.error cause, s') ∧
      Untouched s s' ∧ (Call.pivot 1 3).FailsFrom 2 s s' ∧
        ∃ s'', (Call.pivot 1 0).run parallelColumns s' = (.ok (), s'') ∧
          s''.Consistent parallelColumns 2 := by
  have hrun : (ofInstance parallelColumns 2).toOption.map (fun s =>
      let s₁ := (Call.pivot 0 2).run parallelColumns s
      let s₂ := (Call.pivot 1 3).run parallelColumns s₁.2
      let s₃ := (Call.pivot 1 0).run parallelColumns s₂.2
      (decide ((Call.pivot 0 2).Admissible parallelColumns s),
        decide ((Call.pivot 1 3).Admissible parallelColumns s₁.2), s₂.1,
        decide ((Call.pivot 1 0).Admissible parallelColumns s₂.2), s₃.1)) =
      some (true, true, .error (.singular .zeroPivot), true, .ok ()) := by
    decide +kernel
  obtain ⟨s, hstart, hrun⟩ := exists_of_map_toOption hrun
  simp only [Prod.mk.injEq, decide_eq_true_eq] at hrun
  obtain ⟨hfirst, hsecond, herror, hthird, hok⟩ := hrun
  -- The session is reached by the correction, and then again by the pivot that fails.
  have hcorrected := (Reached.start hstart).call hfirst
  have hspec := (call_consistent_or_untouched (by decide : (0 : ℤ) < 2) parallelColumns).2
  obtain ⟨huntouched, hfails⟩ := (hspec _ hcorrected _ hsecond).2 _ herror
  have hconsistent := (hspec _ (hcorrected.call hsecond) _ hthird).1 hok
  exact ⟨by decide, _, hcorrected, _, _, Prod.ext herror rfl, huntouched, hfails, _,
    Prod.ext hok rfl, hconsistent⟩

end Session

end ParametricLP
