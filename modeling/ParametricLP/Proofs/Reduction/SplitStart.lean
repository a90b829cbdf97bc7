import Mathlib
import ParametricLP.Proofs.Reduction.SplitResiduals
import ParametricLP.Proofs.Tableau.Start

/-!
# Starting from a fit without coefficients

For large `lam` all coefficients vanish, and programs that split residuals start from the best fit by
an intercept alone, or by nothing. Every row then holds the part of its own residual that is not
zero, except for one row that may hold the intercept. `FlatStart` describes such a basis by the
intercept columns `q`, the row `a` that may hold one of them, and the price of every residual, which
must be balanced over the intercept columns. The matrix of such a basis is an arrow, prices lie
between the weights of the two parts, and no tolerance refuses the start.

## Key results

- `FlatStart.isArrow`: the matrix of the basis
- `FlatStart.of_signSplit`: a basis that holds an intercept of either sign
- `SplitsResiduals.primal_eq`: what the start fits at every `lam`
- `SplitsResiduals.isSettled`: basic values and reduced costs of the start
- `SplitsResiduals.exists_startsOptimal`: a start that no tolerance refuses
-/

namespace ParametricLP

open Matrix

variable {n d w : ℕ}

namespace SplitResiduals

/-! ## Columns -/

/-- Column of a part of a coefficient. -/
def coefColumn (n w : ℕ) (j : Fin (d + d)) : Fin (d + d + w + (n + n)) :=
  Fin.castAdd (n + n) (Fin.castAdd w j)

/-- Column of the intercept. -/
def interceptColumn (n d : ℕ) (j : Fin w) : Fin (d + d + w + (n + n)) :=
  Fin.castAdd (n + n) (Fin.natAdd (d + d) j)

/-- Column of the positive part of residual `i`. -/
def aboveColumn (d w : ℕ) (i : Fin n) : Fin (d + d + w + (n + n)) :=
  Fin.natAdd (d + d + w) (Fin.castAdd n i)

/-- Column of the negative part of residual `i`. -/
def belowColumn (d w : ℕ) (i : Fin n) : Fin (d + d + w + (n + n)) :=
  Fin.natAdd (d + d + w) (Fin.natAdd n i)

/-- Every column belongs to one of the four blocks. -/
@[elab_as_elim]
theorem columnCases {motive : Fin (d + d + w + (n + n)) → Prop}
    (coef : ∀ j, motive (coefColumn n w j)) (intercept : ∀ j, motive (interceptColumn n d j))
    (above : ∀ i, motive (aboveColumn d w i)) (below : ∀ i, motive (belowColumn d w i))
    (j : Fin (d + d + w + (n + n))) : motive j := by
  induction j using Fin.addCases with
  | left j =>
    induction j using Fin.addCases with
    | left j => exact coef j
    | right j => exact intercept j
  | right j =>
    induction j using Fin.addCases with
    | left i => exact above i
    | right i => exact below i

variable (X : Mat ℚ n d) (C : Mat ℚ n w)

/-- The columns of the intercept are where they were put. -/
theorem matrix_intercept (i : Fin n) (j : Fin w) :
    (matrix X C).toMatrix i (interceptColumn n d j) = C.toMatrix i j := by
  unfold interceptColumn
  rw [Mat.toMatrix_beside_castAdd, Mat.toMatrix_beside_natAdd]

/-- The positive parts of residuals have the columns of the identity. -/
theorem matrix_above (i l : Fin n) :
    (matrix X C).toMatrix i (aboveColumn d w l) = (1 : Matrix (Fin n) (Fin n) ℚ) i l := by
  unfold aboveColumn
  rw [Mat.toMatrix_beside_natAdd, Mat.toMatrix_signSplit_castAdd, Mat.toMatrix_identity]

/-- The negative parts have their opposites. -/
theorem matrix_below (i l : Fin n) :
    (matrix X C).toMatrix i (belowColumn d w l) = -(1 : Matrix (Fin n) (Fin n) ℚ) i l := by
  unfold belowColumn
  rw [Mat.toMatrix_beside_natAdd, Mat.toMatrix_signSplit_natAdd, Mat.toMatrix_identity]

/-! ## Starting bases -/

/-- What row `i` may hold where its residual is `x`, and at which price. -/
inductive RowHolds (up down : ℚ) (a i : Fin n) (column : Fin (d + d + w + (n + n)))
    (x price : ℚ) : Prop where
  | above (hcolumn : column = aboveColumn d w i) (hx : 0 ≤ x) (hprice : price = up)
  | below (hcolumn : column = belowColumn d w i) (hx : x ≤ 0) (hprice : price = -down)
  | intercept {j} (hcolumn : column = interceptColumn n d j) (hx : x = 0) (hrow : i = a)
      (hprice : price ∈ Set.Icc (-down) up)

/-- The basis of a fit by the intercept columns `q` alone, one of which row `a` may hold. -/
structure FlatStart (basis : Vector (Fin (d + d + w + (n + n))) n) (C : Mat ℚ n w)
    (y : Vector ℚ n) (up down : ℚ) (a : Fin n) (q : Fin w → ℚ) (price : Fin n → ℚ) : Prop where
  nonneg : ∀ j, 0 ≤ q j
  held : ∀ j, q j ≠ 0 → interceptColumn n d j ∈ basis
  row : ∀ i, RowHolds up down a i basis[i] ((entries y - C.toMatrix *ᵥ q) i) (price i)
  balanced : price ᵥ* C.toMatrix = 0

namespace FlatStart

variable {X C} {basis : Vector (Fin (d + d + w + (n + n))) n} {y : Vector ℚ n} {up down : ℚ}
  {a : Fin n} {q : Fin w → ℚ} {price : Fin n → ℚ}

/-- Prices lie between the weights of the two parts of a residual. -/
theorem price_mem (h : FlatStart basis C y up down a q price) (hup : 0 ≤ up) (hdown : 0 ≤ down)
    (i : Fin n) : price i ∈ Set.Icc (-down) up := by
  cases h.row i with
  | above _ _ hprice =>
    rw [hprice]
    exact ⟨by linarith, le_rfl⟩
  | below _ _ hprice =>
    rw [hprice]
    exact ⟨le_rfl, by linarith⟩
  | intercept _ _ _ hprice => exact hprice

/-- The matrix of the basis is an arrow if the intercept columns hold units. -/
theorem isArrow (h : FlatStart basis C y up down a q price)
    (hunit : ∀ i j, |C.toMatrix i j| = 1) :
    Mat.IsArrow ((matrix X C).toMatrix.submatrix id (entries basis)) a := by
  constructor
  -- Every column of the basis has a unit on the diagonal.
  · intro i
    show |(matrix X C).toMatrix i basis[i]| = 1
    cases h.row i with
    | above hcolumn => rw [hcolumn, matrix_above, one_apply_eq, abs_one]
    | below hcolumn => rw [hcolumn, matrix_below, one_apply_eq, abs_neg, abs_one]
    | intercept hcolumn => rw [hcolumn, matrix_intercept, hunit]
  · intro i l hil hl
    -- Apart from the row that may hold an intercept there is nothing else.
    show (matrix X C).toMatrix i basis[l] = 0
    cases h.row l with
    | above hcolumn => rw [hcolumn, matrix_above, one_apply_ne hil]
    | below hcolumn => rw [hcolumn, matrix_below, one_apply_ne hil, neg_zero]
    | intercept _ _ hrow => exact absurd hrow hl

/-- The columns of the basis are distinct. -/
theorem basis_injective (h : FlatStart basis C y up down a q price)
    (hunit : ∀ i j, |C.toMatrix i j| = 1) : Function.Injective (entries basis) :=
  (h.isArrow (X := Mat.ofFn fun _ _ => 0) hunit).injective_of_submatrix

/-- Its shared column is no larger than an intercept column. -/
theorem sum_abs_le (h : FlatStart basis C y up down a q price) {bound : ℚ} (hbound : 1 ≤ bound)
    (hC : ∀ j, ∑ i, |C.toMatrix i j| ≤ bound) :
    ∑ i, |(matrix X C).toMatrix i basis[a]| ≤ bound := by
  cases h.row a with
  | above hcolumn =>
    simp only [hcolumn, matrix_above, Mat.sum_abs_one]
    exact hbound
  | below hcolumn =>
    simp only [hcolumn, matrix_below, abs_neg, Mat.sum_abs_one]
    exact hbound
  | intercept hcolumn =>
    simp only [hcolumn, matrix_intercept]
    exact hC _

/-- What the fit leaves over is zero off the basis. -/
theorem lifted_of_notMem (h : FlatStart basis C y up down a q price)
    {j : Fin (d + d + w + (n + n))} (hj : j ∉ basis) :
    (lifted (0 : Fin d → ℚ) q (entries y - C.toMatrix *ᵥ q))[j] = 0 := by
  set z := lifted (0 : Fin d → ℚ) q (entries y - C.toMatrix *ᵥ q) with hz
  -- A residual on the wrong side of its row would have made the row hold its other part.
  induction j using columnCases with
  -- The fit has no coefficients.
  | coef j =>
    have hpart : coefPart z j = split (0 : Fin d → ℚ) j := by rw [hz, coefPart_lifted]
    apply hpart.trans
    induction j using Fin.addCases with
    | left j => rw [split_castAdd, Pi.zero_apply, posPart_zero]
    | right j => rw [split_natAdd, Pi.zero_apply, negPart_zero]
  -- An intercept column that is not zero is held.
  | intercept j =>
    have hpart : interceptPart z j = q j := by rw [hz, interceptPart_lifted]
    apply hpart.trans
    by_contra hq
    exact hj (h.held j hq)
  | above i =>
    have hpart : residualPart z (Fin.castAdd n i) = ((entries y - C.toMatrix *ᵥ q) i)⁺ := by
      rw [hz, residualPart_lifted, split_castAdd]
    apply hpart.trans
    rw [posPart_eq_zero]
    cases h.row i with
    | above hcolumn => exact absurd (mem_iff_exists_entries.2 ⟨i, hcolumn⟩) hj
    | below _ hx => exact hx
    | intercept _ hx => exact hx.le
  | below i =>
    have hpart : residualPart z (Fin.natAdd n i) = ((entries y - C.toMatrix *ᵥ q) i)⁻ := by
      rw [hz, residualPart_lifted, split_natAdd]
    apply hpart.trans
    rw [negPart_eq_zero]
    cases h.row i with
    | above _ hx => exact hx
    | below hcolumn => exact absurd (mem_iff_exists_entries.2 ⟨i, hcolumn⟩) hj
    | intercept _ hx => exact hx.ge

/-! ### An intercept of either sign -/

/-- The part that a number does not have is zero. -/
theorem split_eq_zero_of_ne_partOf {x : ℚ} {negative : Bool}
    (hsign : if negative then x ≤ 0 else 0 ≤ x) {j : Fin (1 + 1)} (hj : j ≠ partOf negative) :
    split (fun _ : Fin 1 => x) j = 0 := by
  induction j using Fin.addCases with
  | left l =>
    cases negative with
    | false => exact absurd (Subsingleton.elim l 0 ▸ rfl) hj
    | true =>
      rw [split_castAdd, posPart_eq_zero]
      exact hsign
  | right l =>
    cases negative with
    | false =>
      rw [split_natAdd, negPart_eq_zero]
      exact hsign
    | true => exact absurd (Subsingleton.elim l 0 ▸ rfl) hj

/-- A basis in which row `a` holds the part of the intercept `x` that fits it exactly, and which
    counts for row `i` with the weight `W[i][0]`. -/
theorem of_signSplit {basis : Vector (Fin (d + d + (1 + 1) + (n + n))) n} {W : Mat ℚ n 1} {x : ℚ}
    {negative : Bool} (ha : basis[a] = interceptColumn n d (partOf negative))
    (hsign : if negative then x ≤ 0 else 0 ≤ x) (hexact : y[a] = W.toMatrix a 0 * x)
    (hprice : price a ∈ Set.Icc (-down) up) (hbalanced : ∑ i, price i * W.toMatrix i 0 = 0)
    (hrow : ∀ i, i ≠ a → RowHolds up down a i basis[i] (y[i] - W.toMatrix i 0 * x) (price i)) :
    FlatStart basis W.signSplit y up down a (split fun _ : Fin 1 => x) price := by
  have hleft (i : Fin n) : (entries y - W.signSplit.toMatrix *ᵥ split fun _ : Fin 1 => x) i =
      y[i] - W.toMatrix i 0 * x := by
    rw [Mat.signSplit_mulVec, signed_split]
    simp [Matrix.mulVec, dotProduct]
  constructor
  · exact split_nonneg _
  -- Of the two parts one is held, and the other is zero.
  · intro j hj
    by_cases hpart : j = partOf negative
    · rw [hpart, ← ha]
      exact mem_iff_exists_entries.2 ⟨a, rfl⟩
    · exact absurd (split_eq_zero_of_ne_partOf hsign hpart) hj
  · intro i
    rw [hleft]
    by_cases hi : i = a
    -- The residual of the row that holds the intercept is zero.
    · subst hi
      exact .intercept ha (sub_eq_zero.2 hexact) rfl hprice
    · exact hrow i hi
  -- Balance over the single column gives balance over both its copies.
  · have hzero (l : Fin 1) : (price ᵥ* W.toMatrix) l = 0 := by
      rw [Subsingleton.elim l 0]
      exact hbalanced
    funext j
    induction j using Fin.addCases with
    | left l => rw [Mat.vecMul_signSplit_castAdd, hzero, Pi.zero_apply]
    | right l => rw [Mat.vecMul_signSplit_natAdd, hzero, neg_zero, Pi.zero_apply]

end FlatStart

/-- Both columns of an intercept hold units if one does. -/
theorem abs_signSplit {W : Mat ℚ n 1} (hW : ∀ i, |W.toMatrix i 0| = 1) (i : Fin n)
    (j : Fin (1 + 1)) : |W.signSplit.toMatrix i j| = 1 := by
  have hunit (l : Fin 1) : |W.toMatrix i l| = 1 := by
    rw [Subsingleton.elim l 0]
    exact hW i
  induction j using Fin.addCases with
  | left l => rw [Mat.toMatrix_signSplit_castAdd, hunit]
  | right l => rw [Mat.toMatrix_signSplit_natAdd, abs_neg, hunit]

/-- Up to a million units are not too many for the condition number. -/
theorem sum_abs_le_of_units {C : Mat ℚ n w} (hunit : ∀ i j, |C.toMatrix i j| = 1)
    (hn : n ≤ 10 ^ 6) (j : Fin w) : ∑ i, |C.toMatrix i j| ≤ 10 ^ 6 := by
  simp only [hunit, Finset.sum_const, Finset.card_univ, Fintype.card_fin, nsmul_one]
  exact_mod_cast hn

/-- The entries of a vector, position by position. -/
theorem map_finRange_getElem (y : Vector ℚ n) :
    (List.finRange n).map (fun i => y[i]) = y.toList := by
  apply List.ext_getElem <;> simp

/-- One for the members of a list, nothing for others. -/
def tally (l : List (Fin n)) (i : Fin n) : ℚ :=
  if i ∈ l then 1 else 0

/-- A member counts one. -/
theorem tally_of_mem {l : List (Fin n)} {i : Fin n} (h : i ∈ l) : tally l i = 1 :=
  if_pos h

/-- Others count nothing. -/
theorem tally_of_notMem {l : List (Fin n)} {i : Fin n} (h : i ∉ l) : tally l i = 0 :=
  if_neg h

/-- All members together count as many as the list has. -/
theorem sum_tally {l : List (Fin n)} (hl : l.Nodup) : ∑ i, tally l i = l.length := by
  unfold tally
  rw [Finset.sum_boole, ← List.toFinset_card_of_nodup hl]
  congr 2
  ext i
  simp

end SplitResiduals

/-! ## Programs -/

open SplitResiduals

namespace Instance.SplitsResiduals

variable {p : Instance ℚ n (d + d + w + (n + n))} {X : Mat ℚ n d} {C : Mat ℚ n w} {y : Vector ℚ n}
  {up down : ℚ} {a : Fin n} {q : Fin w → ℚ} {price : Fin n → ℚ}
  {t : Tableau ℚ n (d + d + w + (n + n))}

/-! ### Costs and prices -/

/-- A part of a coefficient costs `lam`. -/
theorem cost_coef (h : p.SplitsResiduals X C y up down) (j : Fin (d + d)) :
    p.cost.get (coefColumn n w j) = ⟨0, 1⟩ := by
  have hconstant := congrFun h.entries_constant (coefColumn n w j)
  have hslope := congrFun h.entries_slope (coefColumn n w j)
  unfold coefColumn at hconstant hslope
  rw [Fin.append_left] at hconstant
  rw [Fin.append_left, Fin.append_left] at hslope
  exact congrArg₂ Affine.mk hconstant hslope

/-- The intercept is free. -/
theorem cost_intercept (h : p.SplitsResiduals X C y up down) (j : Fin w) :
    p.cost.get (interceptColumn n d j) = ⟨0, 0⟩ := by
  have hconstant := congrFun h.entries_constant (interceptColumn n d j)
  have hslope := congrFun h.entries_slope (interceptColumn n d j)
  unfold interceptColumn at hconstant hslope
  rw [Fin.append_left] at hconstant
  rw [Fin.append_left, Fin.append_right] at hslope
  exact congrArg₂ Affine.mk hconstant hslope

/-- The positive part of a residual costs its weight. -/
theorem cost_above (h : p.SplitsResiduals X C y up down) (i : Fin n) :
    p.cost.get (aboveColumn d w i) = ⟨up, 0⟩ := by
  have hconstant := congrFun h.entries_constant (aboveColumn d w i)
  have hslope := congrFun h.entries_slope (aboveColumn d w i)
  unfold aboveColumn at hconstant hslope
  rw [Fin.append_right, Fin.append_left] at hconstant
  rw [Fin.append_right] at hslope
  exact congrArg₂ Affine.mk hconstant hslope

/-- The negative part costs the other weight. -/
theorem cost_below (h : p.SplitsResiduals X C y up down) (i : Fin n) :
    p.cost.get (belowColumn d w i) = ⟨down, 0⟩ := by
  have hconstant := congrFun h.entries_constant (belowColumn d w i)
  have hslope := congrFun h.entries_slope (belowColumn d w i)
  unfold belowColumn at hconstant hslope
  rw [Fin.append_right, Fin.append_right] at hconstant
  rw [Fin.append_right] at hslope
  exact congrArg₂ Affine.mk hconstant hslope

/-- The price of a part of a coefficient depends on the observations of its feature only. -/
theorem vecMul_coef (h : p.SplitsResiduals X C y up down) (v : Fin n → ℚ) (j : Fin (d + d)) :
    (v ᵥ* p.matrix.toMatrix) (coefColumn n w j) = (v ᵥ* X.signSplit.toMatrix) j := by
  rw [h.matrix_eq]
  unfold coefColumn
  rw [Mat.vecMul_beside_castAdd, Mat.vecMul_beside_castAdd]

/-- The price of an intercept column depends on that column only. -/
theorem vecMul_intercept (h : p.SplitsResiduals X C y up down) (v : Fin n → ℚ) (j : Fin w) :
    (v ᵥ* p.matrix.toMatrix) (interceptColumn n d j) = (v ᵥ* C.toMatrix) j := by
  rw [h.matrix_eq]
  unfold interceptColumn
  rw [Mat.vecMul_beside_castAdd, Mat.vecMul_beside_natAdd]

/-- The price of the positive part of a residual is that of its row. -/
theorem vecMul_above (h : p.SplitsResiduals X C y up down) (v : Fin n → ℚ) (i : Fin n) :
    (v ᵥ* p.matrix.toMatrix) (aboveColumn d w i) = v i := by
  rw [h.matrix_eq]
  unfold aboveColumn
  rw [Mat.vecMul_beside_natAdd, Mat.vecMul_signSplit_castAdd, Mat.toMatrix_identity, vecMul_one]

/-- The price of the negative part is the opposite. -/
theorem vecMul_below (h : p.SplitsResiduals X C y up down) (v : Fin n → ℚ) (i : Fin n) :
    (v ᵥ* p.matrix.toMatrix) (belowColumn d w i) = -v i := by
  rw [h.matrix_eq]
  unfold belowColumn
  rw [Mat.vecMul_beside_natAdd, Mat.vecMul_signSplit_natAdd, Mat.toMatrix_identity, vecMul_one]

/-! ### The start -/

/-- The multipliers of the start are its prices. -/
theorem dual_eq (h : p.SplitsResiduals X C y up down)
    (hflat : FlatStart t.basis C y up down a q price) (ht : t.Valid p) (lam : ℚ) :
    t.dual lam = Vector.ofFn price := by
  symm
  -- There is one price for the columns held, so it is enough that the prices given are right.
  apply ht.eq_dual
  intro j hj
  obtain ⟨i, rfl⟩ := mem_iff_exists_entries.1 hj
  have hcost : (p.cost.value lam)[entries t.basis i] =
      (p.cost.get (entries t.basis i)).value lam := by
    rw [getElem_fin, AffineVector.getElem_value]
  rw [hcost, entries_ofFn, entries_apply]
  -- What a row holds costs what its price pays.
  cases hflat.row i with
  | above hcolumn _ hprice =>
    rw [hcolumn, h.vecMul_above, h.cost_above, hprice]
    simp [Affine.value]
  | below hcolumn _ hprice =>
    rw [hcolumn, h.vecMul_below, h.cost_below, hprice]
    simp [Affine.value]
  | intercept hcolumn =>
    rw [hcolumn, h.vecMul_intercept, h.cost_intercept, hflat.balanced]
    simp [Affine.value]

/-- At every `lam` the solution of the start holds the fit and what it leaves over. -/
theorem primal_eq (h : p.SplitsResiduals X C y up down)
    (hflat : FlatStart t.basis C y up down a q price) (ht : t.Valid p) (lam : ℚ) :
    t.primal lam = lifted (0 : Fin d → ℚ) q (entries y - C.toMatrix *ᵥ q) := by
  -- The right-hand side is fixed, so what the fit leaves over is the basic solution at every `lam`.
  have hfeasible := h.feasible_lifted lam 0 hflat.nonneg
  rw [mulVec_zero, sub_zero] at hfeasible
  exact (ht.eq_primal hfeasible.1 fun j hj => hflat.lifted_of_notMem hj).symm

/-- Basic values do not depend on `lam`. -/
theorem get_values (h : p.SplitsResiduals X C y up down)
    (hflat : FlatStart t.basis C y up down a q price) (ht : t.Valid p) (i : Fin n) :
    t.values.get i =
      ⟨(lifted (0 : Fin d → ℚ) q (entries y - C.toMatrix *ᵥ q))[t.basis[i]], 0⟩ := by
  apply Affine.ext_value
  intro lam
  rw [← ht.primal_basis, h.primal_eq hflat ht]
  simp [Affine.value]

/-- The basic values of the start are fixed and nonnegative. -/
theorem isSettled_values (h : p.SplitsResiduals X C y up down)
    (hflat : FlatStart t.basis C y up down a q price) (ht : t.Valid p) (i : Fin n) :
    (t.values.get i).IsSettled := by
  rw [h.get_values hflat ht]
  exact .inr ⟨rfl, lifted_nonneg 0 q _ hflat.nonneg _⟩

/-- No reduced cost of the start falls below zero. -/
theorem isSettled (h : p.SplitsResiduals X C y up down)
    (hflat : FlatStart t.basis C y up down a q price) (ht : t.Valid p) (hup : 0 ≤ up)
    (hdown : 0 ≤ down) : t.IsSettled := by
  constructor
  · exact h.isSettled_values hflat ht
  · apply ht.isSettled_reducedCosts (h.dual_eq hflat ht)
    intro j
    rw [entries_ofFn]
    -- Column by column the price stays below the cost, or the cost rises.
    induction j using columnCases with
    | coef j => exact .inl (Affine.mk.inj (h.cost_coef j)).2
    | intercept j =>
      obtain ⟨hconstant, hslope⟩ := Affine.mk.inj (h.cost_intercept j)
      rw [h.vecMul_intercept, hflat.balanced]
      exact .inr ⟨hslope, hconstant.ge⟩
    | above i =>
      obtain ⟨hconstant, hslope⟩ := Affine.mk.inj (h.cost_above i)
      rw [h.vecMul_above]
      exact .inr ⟨hslope, (hflat.price_mem hup hdown i).2.trans hconstant.ge⟩
    | below i =>
      obtain ⟨hconstant, hslope⟩ := Affine.mk.inj (h.cost_below i)
      rw [h.vecMul_below]
      have hle := (hflat.price_mem hup hdown i).1
      exact .inr ⟨hslope, (neg_le.1 hle).trans hconstant.ge⟩

/-- A program that starts from a flat fit has a starting tableau. -/
theorem exists_start (h : p.SplitsResiduals X C y up down)
    (hflat : FlatStart p.basis C y up down a q price) (hunit : ∀ i j, |C.toMatrix i j| = 1)
    (hC : ∀ j, ∑ i, |C.toMatrix i j| ≤ 10 ^ 6) : ∃ t, Tableau.start p = .ok t := by
  have hmatrix : (p.basisMatrix p.basis).toMatrix =
      (SplitResiduals.matrix X C).toMatrix.submatrix id (entries p.basis) := by
    rw [Instance.basisMatrix, Mat.toMatrix_columns, h.matrix_eq]
  -- The columns held form an arrow whose shared column is small.
  have harrow : Mat.IsArrow (p.basisMatrix p.basis).toMatrix a := by
    rw [hmatrix]
    exact hflat.isArrow hunit
  have hsum : ∑ i, |(p.basisMatrix p.basis).toMatrix i a| ≤ 10 ^ 6 := by
    rw [hmatrix]
    exact hflat.sum_abs_le (by norm_num) hC
  exact Instance.exists_start_of_isArrow harrow hsum

/-- The start is optimal and no tolerance refuses it, and its multipliers lie between the weights of
    the parts of a residual. -/
theorem exists_startsOptimal (h : p.SplitsResiduals X C y up down)
    (hflat : FlatStart p.basis C y up down a q price) (hunit : ∀ i j, |C.toMatrix i j| = 1)
    (hC : ∀ j, ∑ i, |C.toMatrix i j| ≤ 10 ^ 6) (hup : 0 ≤ up) (hdown : 0 ≤ down) :
    ∃ t, p.StartsOptimal t ∧ ∀ lam, ∀ i : Fin n, (t.dual lam)[i] ∈ Set.Icc (-down) up := by
  obtain ⟨t, ht⟩ := h.exists_start hflat hunit hC
  obtain ⟨hvalid, hbasis⟩ := Tableau.valid_of_start ht
  rw [← hbasis] at hflat
  refine ⟨t, (h.isSettled hflat hvalid hup hdown).startsOptimal ht, ?_⟩
  intro lam i
  rw [h.dual_eq hflat hvalid, getElem_fin, Vector.getElem_ofFn]
  exact hflat.price_mem hup hdown i

end Instance.SplitsResiduals

end ParametricLP
