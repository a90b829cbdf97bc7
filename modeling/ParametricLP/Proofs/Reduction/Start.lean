import Mathlib
import ParametricLP.Proofs.Reduction.HingeStart
import ParametricLP.Proofs.Reduction.MaxNorm
import ParametricLP.Proofs.Reduction.QuantileStart

/-!
# Every reduction starts from an optimal basis

The slacks of a bound on the largest residual are a basis whose matrix is the identity. Its values
rise with slope one, and its multipliers are zero. With the starts of quantile regression and of the
support vector machine this makes every design a program with an optimal start.

## Key results

- `MaxNorm.coefPart_primal`: slacks fit no coefficients
- `MaxNorm.exists_startsOptimal`: the start under a bound on the largest residual
- `starts_optimal`: the starts of all reductions of a design
-/

namespace ParametricLP

open Matrix

namespace MaxNorm

variable {m d : ℕ} {K : Mat ℚ m d} {r : Vector ℚ m} {name : String}
  {R : Reduction ℚ (m + m) (width m d)} {t : Tableau ℚ (m + m) (width m d)}

/-- The slacks are a basis with the identity for a matrix. -/
theorem matrix_slack (K : Mat ℚ m d) (i l : Fin (m + m)) :
    (matrix K).toMatrix i (Fin.natAdd (d + d) l) = (1 : Matrix _ _ ℚ) i l := by
  have hone (i l : Fin m) : (Mat.identity m : Mat ℚ m m).toMatrix i l = (1 : Matrix _ _ ℚ) i l := by
    rw [Mat.toMatrix_identity]
  have hzero (i l : Fin m) : (Mat.ofFn fun _ _ => 0 : Mat ℚ m m).toMatrix i l = 0 := by
    simp
  -- A row of one half is never in the other.
  have hne (i l : Fin m) : Fin.castAdd m i ≠ Fin.natAdd m l := by
    intro h
    have hval := congrArg Fin.val h
    simp only [Fin.val_castAdd, Fin.val_natAdd] at hval
    omega
  unfold matrix
  -- The four quarters of the slack block are two identities and two zeros.
  induction i using Fin.addCases with
  | left i =>
    rw [Mat.toMatrix_above_castAdd, Mat.toMatrix_beside_natAdd]
    induction l using Fin.addCases with
    | left l =>
      rw [Mat.toMatrix_beside_castAdd, hone]
      simp [Matrix.one_apply]
    | right l => rw [Mat.toMatrix_beside_natAdd, hzero, one_apply_ne (hne i l)]
  | right i =>
    rw [Mat.toMatrix_above_natAdd, Mat.toMatrix_beside_natAdd]
    induction l using Fin.addCases with
    | left l => rw [Mat.toMatrix_beside_castAdd, hzero, one_apply_ne (hne l i).symm]
    | right l =>
      rw [Mat.toMatrix_beside_natAdd, hone]
      simp [Matrix.one_apply]

/-- The program starts from its slacks. -/
theorem basis_eq (h : reduction K r name = .ok R) : R.inst.basis = start m d := by
  obtain ⟨p, hp, rfl⟩ := reduction_eq_ok_iff.1 h
  exact (Instance.ofParts?_eq_ok_iff.1 hp).2.2.2.2

/-- The matrix of the starting basis is the identity. -/
theorem submatrix_start (h : reduction K r name = .ok R) :
    R.inst.matrix.toMatrix.submatrix id (entries (start m d)) = 1 := by
  have hstart : entries (start m d) = Fin.natAdd (d + d) := entries_ofFn _
  rw [(parts_eq h).1, hstart]
  ext i l
  exact matrix_slack K i l

/-- Costs are fixed and nonnegative. -/
theorem cost_nonneg (j : Fin (width m d)) :
    entries (cost m d : AffineVector ℚ (width m d)).slope j = 0 ∧
      0 ≤ entries (cost m d : AffineVector ℚ (width m d)).constant j := by
  constructor
  · simp [cost, AffineVector.fixed]
  · show 0 ≤ entries (Vector.replicate (d + d) (1 : ℚ) ++ Vector.replicate (m + m) 0) j
    rw [entries_append, entries_replicate, entries_replicate]
    exact append_nonneg (fun _ => zero_le_one) (fun _ => le_rfl) j

/-- Slacks are free. -/
theorem cost_slack (i : Fin (m + m)) (lam : ℚ) :
    entries ((cost m d).value lam) (Fin.natAdd (d + d) i) = 0 := by
  rw [cost, AffineVector.entries_value_fixed, entries_append, Fin.append_right, entries_replicate]

/-- Basic values are the bounds themselves, because the inverse is the identity as well. -/
theorem get_values (h : reduction K r name = .ok R) (ht : t.Valid R.inst)
    (hbasis : t.basis = start m d) (i : Fin (m + m)) : t.values.get i = (rhs r).get i := by
  have hinverse := ht.inverse_mul
  rw [hbasis, submatrix_start h, mul_one] at hinverse
  apply Affine.ext_value
  intro lam
  have hentry := congrFun (ht.entries_values lam) i
  rw [hinverse, one_mulVec, (parts_eq h).2.1] at hentry
  simpa only [AffineVector.entries_value] using hentry

/-- Multipliers of zero price the slacks at their costs. -/
theorem dual_eq (h : reduction K r name = .ok R) (ht : t.Valid R.inst)
    (hbasis : t.basis = start m d) (lam : ℚ) : t.dual lam = Vector.replicate (m + m) 0 := by
  -- The slacks cost nothing, so nothing is to be paid for the rows.
  have hslack : entries (R.inst.cost.value lam) ∘ entries (start m d) = 0 := by
    funext i
    rw [(parts_eq h).2.2, start, entries_ofFn]
    exact cost_slack i lam
  apply entries_injective
  rw [ht.entries_dual, hbasis, hslack, zero_vecMul, entries_replicate]
  rfl

/-- Costs are not reduced. -/
theorem get_reducedCosts (h : reduction K r name = .ok R) (ht : t.Valid R.inst)
    (hbasis : t.basis = start m d) (j : Fin (width m d)) :
    t.reducedCosts.get j = (cost m d).get j := by
  have hzero : entries (Vector.replicate (m + m) (0 : ℚ)) = 0 := entries_replicate _ _
  rw [ht.get_reducedCosts_of_dual (dual_eq h ht hbasis), hzero, zero_vecMul, Pi.zero_apply,
    sub_zero, (parts_eq h).2.2]
  rfl

/-- Basic values rise with slope one, and reduced costs are fixed and nonnegative. -/
theorem isSettled (h : reduction K r name = .ok R) (ht : t.Valid R.inst)
    (hbasis : t.basis = start m d) : t.IsSettled := by
  constructor
  · intro i
    rw [get_values h ht hbasis]
    left
    simp [rhs, AffineVector.get]
  · intro j
    rw [get_reducedCosts h ht hbasis]
    exact .inr (cost_nonneg j)

/-- Coefficients are not held. -/
theorem coefPart_primal (hbasis : t.basis = start m d) (lam : ℚ) : coefPart (t.primal lam) = 0 := by
  funext j
  -- The basis holds the last columns only.
  have hmem : Fin.castAdd (m + m) j ∉ t.basis := by
    rw [hbasis, mem_iff_exists_entries, start, entries_ofFn]
    rintro ⟨i, hi⟩
    have hval := congrArg Fin.val hi
    simp only [Fin.val_natAdd, Fin.val_castAdd] at hval
    omega
  exact Tableau.primal_of_notMem hmem lam

/-- The slacks have a starting tableau. -/
theorem exists_start (h : reduction K r name = .ok R) : ∃ t, Tableau.start R.inst = .ok t := by
  have hmatrix : (R.inst.basisMatrix R.inst.basis).toMatrix = 1 := by
    rw [Instance.basisMatrix, Mat.toMatrix_columns, basis_eq h, submatrix_start h]
  -- The identity is an arrow at any row, the first one for instance.
  have harrow := Mat.isArrow_one (⟨0, R.inst.rows_pos⟩ : Fin (m + m))
  have hsum := Mat.sum_abs_one (⟨0, R.inst.rows_pos⟩ : Fin (m + m))
  rw [← hmatrix] at harrow hsum
  exact Instance.exists_start_of_isArrow harrow (hsum.le.trans (by norm_num))

/-- Under a bound on the largest residual the slacks are an optimal start that no tolerance
    refuses. -/
theorem exists_startsOptimal (h : reduction K r name = .ok R) : ∃ t, R.inst.StartsOptimal t := by
  obtain ⟨t, ht⟩ := exists_start h
  obtain ⟨hvalid, hbasis⟩ := Tableau.valid_of_start ht
  rw [basis_eq h] at hbasis
  exact ⟨t, (isSettled h hvalid hbasis).startsOptimal ht⟩

end MaxNorm

/-- Every design has programs of all kinds, quantile regression at levels strictly between zero and
    one and the support vector machine for labels, up to a million observations where there is an
    intercept. Each starts from a basis of distinct columns with a regular matrix that is optimal for
    all large `lam`, and no run refuses it, whatever its tolerance. The multipliers at the start lie
    between the weights of the two sides of a residual. -/
theorem starts_optimal {X y : Nested ℚ} {A : AnyDesign ℚ} (hA : Design.ofNested? X y = .ok A) :
    (∀ (tau : ℚ) (intercept : Bool), 0 < tau → tau < 1 → (intercept = true → A.rows ≤ 10 ^ 6) →
      ∃ r t, Quantile.reduction A.design tau intercept = .ok r ∧ r.inst.StartsOptimal t ∧
        ∀ lam, ∀ i : Fin A.rows, (t.dual lam)[i] ∈ Set.Icc (tau - 1) tau) ∧
    ((∀ i : Fin A.rows, A.design.response[i] = 1 ∨ A.design.response[i] = -1) →
      A.rows ≤ 10 ^ 6 →
      ∃ r t, Hinge.reduction A.design = .ok r ∧ r.inst.StartsOptimal t ∧
        ∀ lam, ∀ i : Fin A.rows, (t.dual lam)[i] ∈ Set.Icc 0 1) ∧
    (∃ r t, MaxNorm.dantzig A.design = .ok r ∧ r.inst.StartsOptimal t) ∧
    ∃ r t, MaxNorm.compressedSensing A.design = .ok r ∧ r.inst.StartsOptimal t := by
  obtain ⟨hrows, hfeatures⟩ := Design.pos_of_ofNested? hA
  refine ⟨?_, ?_, ?_, ?_⟩
  · intro tau intercept hpos hlt hsize
    exact Quantile.exists_startsOptimal A.design intercept hrows hpos hlt hsize
  · intro hlabels hsize
    exact Hinge.exists_startsOptimal A.design hrows hlabels hsize
  · obtain ⟨r, hr⟩ := MaxNorm.exists_reduction (A.design.matrix.transpose.mul A.design.matrix)
      (Mat.vecMul A.design.response A.design.matrix) "dantzig" hfeatures
    obtain ⟨t, ht⟩ := MaxNorm.exists_startsOptimal hr
    exact ⟨r, t, hr, ht⟩
  · obtain ⟨r, hr⟩ := MaxNorm.exists_reduction A.design.matrix A.design.response
      "compressed_sensing" hrows
    obtain ⟨t, ht⟩ := MaxNorm.exists_startsOptimal hr
    exact ⟨r, t, hr, ht⟩

/-- Labels can be regressed on and separated. -/
theorem starts_optimal_threeObservations : ∃ X y,
    Design.ofNested? X y = .ok threeObservations ∧
    (∃ r t, Quantile.reduction threeObservations.design (1 / 3) true = .ok r ∧
      r.inst.StartsOptimal t ∧
        ∀ lam, ∀ i : Fin 3, (t.dual lam)[i] ∈ Set.Icc ((1 : ℚ) / 3 - 1) (1 / 3)) ∧
    (∃ r t, Hinge.reduction threeObservations.design = .ok r ∧ r.inst.StartsOptimal t ∧
      ∀ lam, ∀ i : Fin 3, (t.dual lam)[i] ∈ Set.Icc (0 : ℚ) 1) ∧
    ∃ r t, MaxNorm.dantzig threeObservations.design = .ok r ∧ r.inst.StartsOptimal t := by
  have hA : Design.ofNested? (.list [.list [.number 3], .list [.number 2], .list [.number (-1)]])
      (.list [.number 1, .number 1, .number (-1)]) = .ok threeObservations := rfl
  obtain ⟨hquantile, hhinge, hdantzig, -⟩ := starts_optimal hA
  have hsize : threeObservations.rows ≤ 10 ^ 6 := by decide
  have hlabels : ∀ i : Fin threeObservations.rows, threeObservations.design.response[i] = 1 ∨
      threeObservations.design.response[i] = -1 := by decide
  exact ⟨_, _, hA, hquantile (1 / 3) true (by norm_num) (by norm_num) fun _ => hsize,
    hhinge hlabels hsize, hdantzig⟩

end ParametricLP
