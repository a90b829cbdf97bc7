import Mathlib
import ParametricLP.Reduction.Basic
import ParametricLP.Proofs.Mat.View

/-!
# What the checks of a problem let through

Rational numbers are all finite, so `Instance.ofParts?` refuses parts for their extents and for a
column held twice only, and otherwise returns the problem with just these parts.

## Key results

- `Instance.ofParts?_eq_ok_iff`: when parts make a problem, and which
- `Design.block_of_ofNested?`: a design has an observation and a feature, and the matrix as given
-/

namespace ParametricLP

namespace Instance

variable {m n : ℕ}

/-- A vector of rational numbers has no entry that is not finite. -/
theorem checkFinite_eq_ok (part : Part) (v : Vector ℚ n) : checkFinite part v = .ok () := by
  have hall : v.all Scalar.isFinite = true := Vector.all_eq_true.2 fun _ _ => rfl
  simp only [checkFinite, hall, ↓reduceIte]

/-- For rational numbers only the extents of a matrix can be wrong. -/
theorem checkMatrix_eq (A : Mat ℚ m n) : checkMatrix A = checkExtents m n := by
  have hall : (A.all fun row => row.all Scalar.isFinite) = true :=
    Vector.all_eq_true.2 fun _ _ => Vector.all_eq_true.2 fun _ _ => rfl
  simp only [checkMatrix, hall, ↓reduceIte]

/-- The extents are those of a matrix with a row, a column, and no more rows than columns. -/
theorem checkExtents_eq_ok_iff : checkExtents m n = .ok () ↔ 0 < m ∧ 0 < n ∧ m ≤ n := by
  unfold checkExtents
  split
  · simp; omega
  · split
    · simp; omega
    · simp; omega

/-- Distinct basic columns make a problem with just these parts. -/
theorem ofBasis?_eq_ok_iff {A : Mat ℚ m n} {rhs : AffineVector ℚ m} {cost : AffineVector ℚ n}
    {basis : Vector (Fin n) m} {p : Instance ℚ m n} : ofBasis? A rhs cost basis = .ok p ↔
      p.matrix = A ∧ p.rhs = rhs ∧ p.cost = cost ∧ p.basis = basis := by
  constructor
  · intro h
    simp only [ofBasis?] at h
    split at h
    -- It is made where there is a row and no column twice, and from nothing but the parts.
    · split at h
      · cases h
        exact ⟨rfl, rfl, rfl, rfl⟩
      · exact nomatch h
    · exact nomatch h
  · rintro ⟨rfl, rfl, rfl, rfl⟩
    unfold ofBasis?
    rw [dif_pos p.rows_pos, dif_pos p.basis_injective]

/-- Parts make a problem where the matrix has a row and no more rows than columns, and the basis has
    distinct columns; the problem has these parts. -/
theorem ofParts?_eq_ok_iff {A : Mat ℚ m n} {rhs : AffineVector ℚ m} {cost : AffineVector ℚ n}
    {basis : Vector (Fin n) m} {p : Instance ℚ m n} : ofParts? A rhs cost basis = .ok p ↔
      m ≤ n ∧ p.matrix = A ∧ p.rhs = rhs ∧ p.cost = cost ∧ p.basis = basis := by
  have hparts : ofParts? A rhs cost basis =
      (checkExtents m n).bind fun _ => ofBasis? A rhs cost basis := by
    unfold ofParts?
    -- The first checks of the matrix and of the vectors cannot fail.
    rw [checkMatrix_eq]
    simp only [checkFinite_eq_ok]
    rfl
  rw [hparts]
  cases hextents : checkExtents m n with
  | error cause =>
    constructor
    · intro h
      exact nomatch h
    · rintro ⟨hle, -⟩
      -- The problem at hand shows that the matrix has a row.
      have hm := p.rows_pos
      have hok := checkExtents_eq_ok_iff.2 ⟨hm, by omega, hle⟩
      rw [hextents] at hok
      exact nomatch hok
  | ok u =>
    have hle := (checkExtents_eq_ok_iff.1 hextents).2.2
    rw [Except.bind, ofBasis?_eq_ok_iff, and_iff_right hle]

/-- Parts with distinct basic columns make a problem. -/
theorem exists_ofParts?_eq_ok (A : Mat ℚ m n) (rhs : AffineVector ℚ m) (cost : AffineVector ℚ n)
    {basis : Vector (Fin n) m} (hm : 0 < m) (hle : m ≤ n)
    (hbasis : Function.Injective (entries basis)) : ∃ p, ofParts? A rhs cost basis = .ok p := by
  -- Nothing remains to be checked in a problem that is written down with its proofs.
  let p : Instance ℚ m n := ⟨A, rhs, cost, basis, hm, fun i j h => hbasis h⟩
  exact ⟨p, ofParts?_eq_ok_iff.2 ⟨hle, rfl, rfl, rfl, rfl⟩⟩

end Instance

/-- What nested lists hold that make a design. -/
theorem Design.block_of_ofNested? {X y : Nested ℚ} {A : AnyDesign ℚ}
    (h : Design.ofNested? X y = .ok A) : X.block = .ok (.ofMat A.design.matrix) ∧
      A.rows ≠ 0 ∧ A.features ≠ 0 := by
  unfold Design.ofNested? at h
  cases hX : X.block with
  | error cause =>
    rw [hX] at h
    exact nomatch h
  | ok B =>
    cases hy : y.block with
    | error cause =>
      rw [hX, hy] at h
      exact nomatch h
    | ok c =>
      rw [hX, hy] at h
      -- After both have been read, one branch is left in which the design is not refused.
      simp only [Except.mapError, bind, Except.bind] at h
      split at h
      · split at h
        · exact nomatch h
        · rename_i hempty
          split at h
          · exact nomatch h
          · split at h
            · cases h
              exact ⟨rfl, not_or.1 hempty⟩
            · exact nomatch h
      · exact nomatch h

/-- A design has an observation and a feature. -/
theorem Design.pos_of_ofNested? {X y : Nested ℚ} {A : AnyDesign ℚ}
    (h : Design.ofNested? X y = .ok A) : 0 < A.rows ∧ 0 < A.features := by
  obtain ⟨-, hrows, hfeatures⟩ := block_of_ofNested? h
  exact ⟨Nat.pos_of_ne_zero hrows, Nat.pos_of_ne_zero hfeatures⟩

/-- The matrix of a design can be read again, as data to predict for. -/
theorem Design.read_of_ofNested? {X y : Nested ℚ} {A : AnyDesign ℚ}
    (h : Design.ofNested? X y = .ok A) : X.read = .ok (.ofMat A.design.matrix) := by
  obtain ⟨hblock, -⟩ := block_of_ofNested? h
  -- What was read as a matrix can only have been read as that matrix.
  unfold Nested.block at hblock
  cases hread : X.read with
  | error cause =>
    rw [hread] at hblock
    exact nomatch hblock
  | ok B =>
    rw [hread] at hblock
    rw [Except.ok.inj hblock]

end ParametricLP
