import Mathlib
import ParametricLP.Reduction.MaxNorm
import ParametricLP.Proofs.Instance
import ParametricLP.Proofs.Mat.Permutation
import ParametricLP.Proofs.Reduction.Represents

/-!
# Sparse fits under a bound on the largest residual

The columns `beta⁺ (d) | beta⁻ (d) | w⁺ (m) | w⁻ (m)` of this program hold the parts of the
coefficients and what every residual of `r - K beta` leaves of the bound `lam` on either side. So
coefficients extend to a feasible solution just where no residual exceeds `lam`, and then in one way
only; what they cost is their absolute values. This holds for every `lam`, negative ones included,
for which there is nothing feasible.

## Key results

- `feasible_iff`: both slacks of a residual are what it leaves of the bound
- `represents_norm`: the program stands for the sum of absolute coefficients under the bound
- `solutions_sparsest`: so do those of the Dantzig selector and of compressed sensing
-/

namespace ParametricLP

open Matrix

/-- The largest absolute value of a family. -/
def maxNorm {k : ℕ} (v : Fin k → ℚ) : ℚ :=
  Scalar.maxAbs (Vector.ofFn v)

/-- A family with a member has a largest absolute value at most `b` if each has. -/
theorem maxNorm_le_iff {k : ℕ} (hk : 0 < k) {v : Fin k → ℚ} {b : ℚ} :
    maxNorm v ≤ b ↔ ∀ i, |v i| ≤ b := by
  -- Either side makes the bound nonnegative, because there is a member.
  have hiff (hb : 0 ≤ b) : maxNorm v ≤ b ↔ ∀ i, |v i| ≤ b := by
    rw [maxNorm, Scalar.maxAbs_le_iff hb]
    simp
  constructor
  · intro h
    exact (hiff ((Scalar.maxAbs_nonneg _).trans h)).1 h
  · intro h
    exact (hiff ((abs_nonneg _).trans (h ⟨0, hk⟩))).2 h

namespace MaxNorm

variable {m d : ℕ} {K : Mat ℚ m d} {r : Vector ℚ m} {name : String} {lam : ℚ}
  {R : Reduction ℚ (m + m) (width m d)} {z : Vector ℚ (width m d)}

/-! ## What the program is made of -/

/-- The starting basis holds the slacks, which are distinct. -/
theorem start_injective : Function.Injective (entries (start m d)) := by
  have hstart : entries (start m d) = Fin.natAdd (d + d) := entries_ofFn _
  rw [hstart]
  exact Fin.natAdd_injective _ _

/-- What a reduction under a bound is made of. -/
theorem reduction_eq_ok_iff : reduction K r name = .ok R ↔
    ∃ p, Instance.ofParts? (matrix K) (rhs r) (cost m d) (start m d) = .ok p ∧
      R = { inst := p, features := d, name } :=
  Reduction.mapError_bind_eq_ok_iff

/-- There is a program for every matrix with a row. -/
theorem exists_reduction (K : Mat ℚ m d) (r : Vector ℚ m) (name : String) (hm : 0 < m) :
    ∃ R, reduction K r name = .ok R := by
  obtain ⟨p, hp⟩ := Instance.exists_ofParts?_eq_ok (matrix K) (rhs r) (cost m d)
    (Nat.add_pos_left hm m) (Nat.le_add_left _ _) start_injective
  exact ⟨_, reduction_eq_ok_iff.2 ⟨p, hp, rfl⟩⟩

/-- The columns start with the coefficients, and there is no intercept. -/
theorem startsWithFit (h : reduction K r name = .ok R) : R.StartsWithFit d false := by
  obtain ⟨p, -, rfl⟩ := reduction_eq_ok_iff.1 h
  exact ⟨rfl, rfl, rfl⟩

/-- The parts of the program that a reduction builds. -/
theorem parts_eq (h : reduction K r name = .ok R) :
    R.inst.matrix = matrix K ∧ R.inst.rhs = rhs r ∧ R.inst.cost = cost m d := by
  obtain ⟨p, hp, rfl⟩ := reduction_eq_ok_iff.1 h
  obtain ⟨-, hmatrix, hrhs, hcost, -⟩ := Instance.ofParts?_eq_ok_iff.1 hp
  exact ⟨hmatrix, hrhs, hcost⟩

/-! ## Blocks of a solution -/

/-- Parts of the coefficients. -/
def coefPart (z : Vector ℚ (width m d)) : Fin (d + d) → ℚ :=
  fun j => entries z (Fin.castAdd (m + m) j)

/-- Slacks of the bounds from above and from below. -/
def slackPart (z : Vector ℚ (width m d)) : Fin (m + m) → ℚ :=
  fun i => entries z (Fin.natAdd (d + d) i)

/-- What coefficients leave of `r`. -/
def residual (K : Mat ℚ m d) (r : Vector ℚ m) (beta : Fin d → ℚ) : Fin m → ℚ :=
  entries r - K.toMatrix *ᵥ beta

/-- The solution with the given coefficients and the slacks that they leave. -/
def lifted (K : Mat ℚ m d) (r : Vector ℚ m) (lam : ℚ) (beta : Fin d → ℚ) :
    Vector ℚ (width m d) :=
  Vector.ofFn (Fin.append (split beta)
    (Fin.append (fun i => lam + residual K r beta i) fun i => lam - residual K r beta i))

@[simp] theorem coefPart_lifted (beta : Fin d → ℚ) :
    coefPart (lifted K r lam beta) = split beta := by
  funext j
  simp only [coefPart, lifted, entries_ofFn, Fin.append_left]

@[simp] theorem slackPart_lifted (beta : Fin d → ℚ) : slackPart (lifted K r lam beta) =
    Fin.append (fun i => lam + residual K r beta i) fun i => lam - residual K r beta i := by
  funext j
  simp only [slackPart, lifted, entries_ofFn, Fin.append_right]

/-- Such a solution is nonnegative where no residual exceeds the bound. -/
theorem lifted_nonneg {beta : Fin d → ℚ} (h : ∀ i, |residual K r beta i| ≤ lam)
    (j : Fin (width m d)) : 0 ≤ (lifted K r lam beta)[j] := by
  have habove (i : Fin m) : 0 ≤ lam + residual K r beta i := by linarith [abs_le.1 (h i)]
  have hbelow (i : Fin m) : 0 ≤ lam - residual K r beta i := by linarith [abs_le.1 (h i)]
  simpa [lifted] using append_nonneg (split_nonneg beta) (append_nonneg habove hbelow) j

/-! ## Feasibility and cost -/

/-- The upper rows add the slacks to the predictions, the lower ones to their opposites. -/
theorem matrix_mulVec (z : Vector ℚ (width m d)) : (matrix K).toMatrix *ᵥ entries z =
    Fin.append (K.toMatrix *ᵥ signed (coefPart z) + slackPart z ∘ Fin.castAdd m)
      (-(K.toMatrix *ᵥ signed (coefPart z)) + slackPart z ∘ Fin.natAdd m) := by
  -- Each half of the rows has the slacks of the other half with entries zero.
  have hzero : (Mat.ofFn fun _ _ => 0 : Mat ℚ m m).toMatrix = 0 := by
    ext i j
    simp
  unfold matrix
  rw [Mat.above_mulVec, Mat.beside_mulVec, Mat.beside_mulVec, Mat.beside_mulVec,
    Mat.beside_mulVec, Mat.toMatrix_neg, Matrix.neg_mulVec, Mat.signSplit_mulVec,
    Mat.toMatrix_identity, hzero]
  simp only [one_mulVec, zero_mulVec, add_zero, zero_add]
  rfl

/-- The sides of the upper rows are `lam + r`, and those of the lower ones `lam - r`. -/
theorem entries_rhs (r : Vector ℚ m) (lam : ℚ) : entries ((rhs r).value lam) =
    Fin.append (fun i => lam + entries r i) fun i => lam - entries r i := by
  rw [AffineVector.entries_value_eq_add]
  funext i
  -- The bound adds to both halves, and `r` enters them with opposite signs.
  induction i using Fin.addCases with
  | left i =>
    rw [Fin.append_left]
    simp [rhs, add_comm]
  | right i =>
    have hconstant : entries (rhs r).constant (Fin.natAdd m i) = -entries r i := by
      rw [rhs, entries_append, Fin.append_right]
      simp
    rw [Fin.append_right, Pi.add_apply, hconstant]
    simp [rhs, sub_eq_neg_add]

/-- Feasible are nonnegative parts of coefficients with what the residuals leave of the bound. -/
theorem feasible_iff (h : reduction K r name = .ok R) : R.inst.Feasible lam z ↔
    (∀ i, slackPart z (Fin.castAdd m i) = lam + residual K r (signed (coefPart z)) i ∧
      slackPart z (Fin.natAdd m i) = lam - residual K r (signed (coefPart z)) i) ∧
    ∀ j : Fin (width m d), 0 ≤ z[j] := by
  obtain ⟨hmatrix, hrhs, -⟩ := parts_eq h
  -- The two equations of a residual say what it leaves of the bound above and below.
  have hequations : R.inst.matrix.mulVec z = R.inst.rhs.value lam ↔
      ∀ i, slackPart z (Fin.castAdd m i) = lam + residual K r (signed (coefPart z)) i ∧
        slackPart z (Fin.natAdd m i) = lam - residual K r (signed (coefPart z)) i := by
    rw [Instance.mulVec_eq_rhs_iff, hmatrix, hrhs, matrix_mulVec, entries_rhs]
    simp only [funext_iff, Fin.forall_fin_add, Fin.append_left, Fin.append_right, residual,
      Pi.add_apply, Pi.sub_apply, Pi.neg_apply, Function.comp_apply]
    rw [← forall_and]
    apply forall_congr'
    intro i
    constructor
    · rintro ⟨habove, hbelow⟩
      constructor <;> linarith
    · rintro ⟨habove, hbelow⟩
      constructor <;> linarith
  unfold Instance.Feasible
  rw [hequations]

/-- No residual of a feasible solution exceeds the bound. -/
theorem abs_residual_le (h : reduction K r name = .ok R) (hz : R.inst.Feasible lam z) (i : Fin m) :
    |residual K r (signed (coefPart z)) i| ≤ lam := by
  obtain ⟨hslack, hnonneg⟩ := (feasible_iff h).1 hz
  have habove : 0 ≤ slackPart z (Fin.castAdd m i) := hnonneg _
  have hbelow : 0 ≤ slackPart z (Fin.natAdd m i) := hnonneg _
  rw [(hslack i).1] at habove
  rw [(hslack i).2] at hbelow
  rw [abs_le]
  constructor <;> linarith

/-- A solution costs the sum of the parts of the coefficients. -/
theorem objective_eq (h : reduction K r name = .ok R) :
    R.inst.objective lam z = ∑ j, coefPart z j := by
  obtain ⟨-, -, hcost⟩ := parts_eq h
  unfold Instance.objective
  rw [dot_eq_dotProduct, hcost, cost, AffineVector.entries_value_fixed, entries_append,
    append_dotProduct]
  simp only [entries_replicate, const_dotProduct, zero_mul, one_mul, add_zero]
  rfl

/-! ## Optima -/

/-- A solution stands for the coefficients that it splits, without an intercept. -/
theorem projectsTo (h : reduction K r name = .ok R) (z : Vector ℚ (width m d)) :
    R.ProjectsTo z ⟨signed (coefPart z), none⟩ :=
  (startsWithFit h).project_of_false (Nat.le_add_right _ _) z

/-- For every `lam` the program stands for the least sum of absolute coefficients among those that
    leave no residual larger than `lam`. -/
theorem represents_norm (h : reduction K r name = .ok R) (lam : ℚ) : R.Represents lam
    {f | f.intercept = none ∧ maxNorm (residual K r f.coef) ≤ lam} Fit.norm := by
  -- There is a residual, since a problem has a row.
  have hm : 0 < m := by
    have hrows := R.inst.rows_pos
    omega
  constructor
  · intro z hz
    have hbound := (maxNorm_le_iff hm).2 (abs_residual_le h hz)
    have hle := sum_abs_signed_le fun j => ((feasible_iff h).1 hz).2 (Fin.castAdd (m + m) j)
    rw [objective_eq h]
    exact ⟨⟨signed (coefPart z), none⟩, ⟨rfl, hbound⟩, projectsTo h z, hle⟩
  · rintro ⟨beta, x⟩ ⟨hnone, hbound⟩
    obtain rfl : x = none := hnone
    -- The slacks are nonnegative because no residual exceeds the bound.
    have hnonneg := lifted_nonneg ((maxNorm_le_iff hm).1 hbound)
    have hfeasible : R.inst.Feasible lam (lifted K r lam beta) := by
      rw [feasible_iff h]
      constructor
      · intro i
        simp only [coefPart_lifted, slackPart_lifted, signed_split, Fin.append_left,
          Fin.append_right, and_self]
      · exact hnonneg
    have hproject := projectsTo h (lifted K r lam beta)
    rw [coefPart_lifted, signed_split] at hproject
    refine ⟨_, hfeasible, hproject, ?_⟩
    rw [objective_eq h, coefPart_lifted, sum_split]
    rfl

/-- The residuals that the Dantzig selector bounds are correlations with the features. -/
theorem residual_dantzig {n : ℕ} (D : Design ℚ n d) (beta : Fin d → ℚ) :
    residual (D.matrix.transpose.mul D.matrix) (Mat.vecMul D.response D.matrix) beta =
      D.matrix.toMatrixᵀ *ᵥ (entries D.response - D.matrix.toMatrix *ᵥ beta) := by
  rw [residual, Mat.entries_vecMul, Mat.toMatrix_mul, Mat.toMatrix_transpose, mulVec_sub,
    mulVec_mulVec, mulVec_transpose]

/-- Coefficients extend to a feasible solution where they satisfy the bound; a solution costs at
    least, and one costs just, their absolute values. So the Dantzig selector and compressed sensing
    are solved by exactly what stands for the sparsest coefficients under their bounds. -/
theorem solutions_sparsest :
    (∀ {m d : ℕ} (K : Mat ℚ m d) (r : Vector ℚ m) (name : String), 0 < m →
      ∃ R, reduction K r name = .ok R ∧ ∀ lam,
        (∀ beta, (∃ z, R.inst.Feasible lam z ∧ R.ProjectsTo z ⟨beta, none⟩) ↔
          maxNorm (entries r - K.toMatrix *ᵥ beta) ≤ lam) ∧
        R.Represents lam {f : Fit d | f.intercept = none ∧
          maxNorm (entries r - K.toMatrix *ᵥ f.coef) ≤ lam} Fit.norm) ∧
    ∀ (X y : Nested ℚ) (A : AnyDesign ℚ), Design.ofNested? X y = .ok A →
      (∃ R, dantzig A.design = .ok R ∧ ∀ lam, R.SameOptima lam {f : Fit A.features |
        f.intercept = none ∧ maxNorm (A.design.matrix.toMatrixᵀ *ᵥ
          (entries A.design.response - A.design.matrix.toMatrix *ᵥ f.coef)) ≤ lam} Fit.norm) ∧
      ∃ R, compressedSensing A.design = .ok R ∧ ∀ lam, R.SameOptima lam {f : Fit A.features |
        f.intercept = none ∧ maxNorm
          (entries A.design.response - A.design.matrix.toMatrix *ᵥ f.coef) ≤ lam} Fit.norm := by
  constructor
  · intro m d K r name hm
    obtain ⟨R, hR⟩ := exists_reduction K r name hm
    refine ⟨R, hR, fun lam => ?_⟩
    have hrepresents := represents_norm hR lam
    constructor
    · intro beta
      rw [hrepresents.exists_feasible_iff]
      exact and_iff_right rfl
    · exact hrepresents
  · intro X y A hA
    obtain ⟨hrows, hfeatures⟩ := Design.pos_of_ofNested? hA
    -- The selector's rows are the features, and those of compressed sensing the observations.
    constructor
    · obtain ⟨R, hR⟩ := exists_reduction _ (Mat.vecMul A.design.response A.design.matrix) "dantzig"
        hfeatures
      refine ⟨R, hR, fun lam => ?_⟩
      have hoptima := (represents_norm hR lam).sameOptima
      simpa only [residual_dantzig] using hoptima
    · obtain ⟨R, hR⟩ := exists_reduction A.design.matrix A.design.response "compressed_sensing"
        hrows
      exact ⟨R, hR, fun lam => (represents_norm hR lam).sameOptima⟩

/-- The coefficient one leaves residuals of at most two, which that bound allows; and nested lists
    with these observations have programs. -/
theorem solutions_sparsest_threeObservations :
    (∃ R, reduction threeObservations.design.matrix threeObservations.design.response "three" =
        .ok R ∧
      ∃ z, R.inst.Feasible 2 z ∧ R.ProjectsTo z ⟨fun _ : Fin 1 => 1, none⟩) ∧
    ∃ X y, Design.ofNested? X y = .ok threeObservations ∧
      ∃ R, dantzig threeObservations.design = .ok R ∧
        ∀ lam, R.SameOptima lam {f : Fit 1 | f.intercept = none ∧
          maxNorm (threeObservations.design.matrix.toMatrixᵀ *ᵥ
            (entries threeObservations.design.response -
              threeObservations.design.matrix.toMatrix *ᵥ f.coef)) ≤ lam} Fit.norm := by
  obtain ⟨hreduction, hdesign⟩ := solutions_sparsest
  constructor
  · obtain ⟨R, hR, hspec⟩ := hreduction threeObservations.design.matrix
      threeObservations.design.response "three" (by decide)
    have hbound : maxNorm (entries threeObservations.design.response -
        threeObservations.design.matrix.toMatrix *ᵥ fun _ => 1) ≤ 2 := by decide +kernel
    exact ⟨R, hR, ((hspec 2).1 fun _ => 1).2 hbound⟩
  · have hA : Design.ofNested? (.list [.list [.number 3], .list [.number 2], .list [.number (-1)]])
        (.list [.number 1, .number 1, .number (-1)]) = .ok threeObservations := rfl
    exact ⟨_, _, hA, (hdesign _ _ _ hA).1⟩

end MaxNorm

end ParametricLP
