import Mathlib
import ParametricLP.Proofs.Reduction.Lift
import ParametricLP.Proofs.Run.First

/-!
# Paths start from the null model

For large `lam` no coefficient is worth its penalty, and every path starts without any. What it
starts with instead is a quantile of the responses, the label of the majority, or nothing. It starts
at the largest `lam` at which a coefficient becomes worth its penalty or a bound on the residuals is
met. This is the largest size of a score: that of a feature under the multipliers of the start, or
that of a residual.

## Key results

- `SplitsResiduals.unitCrossings_eq`, `MaxNorm.unitCrossings_eq`: the scores
- `Reduction.startsFromNull`: where a path starts, and with what
- `paths_start_null`: the paths of all reductions of a design
-/

namespace ParametricLP

open Matrix

variable {m n d k w : ℕ}

/-- The largest absolute value of a family is the largest of its members and their negatives. -/
theorem exists_isGreatest_abs {ι : Type} [Finite ι] [Nonempty ι] (v : ι → ℚ) :
    ∃ top, 0 ≤ top ∧ IsGreatest (Set.range fun i => |v i|) top ∧
      IsGreatest {x | ∃ i, v i = x ∨ -v i = x} top := by
  obtain ⟨i, hi⟩ := Finite.exists_max fun i => |v i|
  refine ⟨|v i|, abs_nonneg _, ⟨⟨i, rfl⟩, Set.forall_mem_range.2 hi⟩, ?_, ?_⟩
  · exact ⟨i, (abs_choice (v i)).imp Eq.symm Eq.symm⟩
  · rintro x ⟨j, rfl | rfl⟩
    · exact (le_abs_self _).trans (hi j)
    · exact (neg_le_abs _).trans (hi j)

/-! ## Scores -/

open SplitResiduals

/-- In a program that splits residuals the coefficient of a feature becomes worth its penalty where
    `lam` falls to the feature's score under the prices, or to its negative. -/
theorem Instance.SplitsResiduals.unitCrossings_eq {p : Instance ℚ n (d + d + w + (n + n))}
    {X : Mat ℚ n d} {C : Mat ℚ n w} {y : Vector ℚ n} {up down : ℚ} {a : Fin n} {q : Fin w → ℚ}
    {price : Fin n → ℚ} {t : Tableau ℚ n (d + d + w + (n + n))}
    (h : p.SplitsResiduals X C y up down) (hflat : FlatStart t.basis C y up down a q price)
    (ht : t.Valid p) : t.unitCrossings =
      {x | ∃ j, (price ᵥ* X.toMatrix) j = x ∨ -(price ᵥ* X.toMatrix) j = x} := by
  -- Prices are the multipliers at every `lam`, so a reduced cost changes as its cost does.
  have hreduced (j : Fin (d + d + w + (n + n))) : t.reducedCosts.get j =
      ⟨(p.cost.get j).constant - (price ᵥ* p.matrix.toMatrix) j, (p.cost.get j).slope⟩ := by
    rw [ht.get_reducedCosts_of_dual (h.dual_eq hflat ht), entries_ofFn]
    rfl
  have hcoef (j : Fin (d + d)) : t.reducedCosts.get (coefColumn n w j) =
      ⟨-(price ᵥ* X.signSplit.toMatrix) j, 1⟩ := by
    rw [hreduced, h.cost_coef, h.vecMul_coef, zero_sub]
  ext x
  constructor
  · -- Basic values stay as they are, and of the reduced costs only those of coefficients change.
    rintro ⟨c, hslope, hconstant⟩
    cases c with
    -- The target is fixed, and so is every basic value.
    | primal row =>
      rw [Tableau.crossed, h.get_values hflat ht] at hslope
      exact absurd hslope zero_ne_one
    | dual column =>
      -- Of the four blocks only that of the coefficients has costs of slope one.
      rw [Tableau.crossed] at hslope hconstant
      induction column using columnCases with
      | coef j =>
        rw [hcoef, neg_neg] at hconstant
        -- The positive part falls to zero at the score itself, and the negative part at its opposite.
        induction j using Fin.addCases with
        | left j =>
          rw [Mat.vecMul_signSplit_castAdd] at hconstant
          exact ⟨j, .inl hconstant⟩
        | right j =>
          rw [Mat.vecMul_signSplit_natAdd] at hconstant
          exact ⟨j, .inr hconstant⟩
      | intercept j =>
        rw [hreduced, h.cost_intercept] at hslope
        exact absurd hslope zero_ne_one
      | above i =>
        rw [hreduced, h.cost_above] at hslope
        exact absurd hslope zero_ne_one
      | below i =>
        rw [hreduced, h.cost_below] at hslope
        exact absurd hslope zero_ne_one
  · -- The two parts of a coefficient reach the score and its negative.
    rintro ⟨j, rfl | rfl⟩
    · refine ⟨.dual (coefColumn n w (Fin.castAdd d j)), ?_⟩
      rw [Tableau.crossed, hcoef, Mat.vecMul_signSplit_castAdd, neg_neg]
      exact ⟨rfl, rfl⟩
    · refine ⟨.dual (coefColumn n w (Fin.natAdd d j)), ?_⟩
      rw [Tableau.crossed, hcoef, Mat.vecMul_signSplit_natAdd, neg_neg]
      exact ⟨rfl, rfl⟩

/-- Under a bound on the largest residual an entry of the target meets the bound where `lam` falls to
    it or to its negative. -/
theorem MaxNorm.unitCrossings_eq {K : Mat ℚ m d} {r : Vector ℚ m} {name : String}
    {R : Reduction ℚ (m + m) (width m d)} {t : Tableau ℚ (m + m) (width m d)}
    (h : reduction K r name = .ok R) (ht : t.Valid R.inst) (hbasis : t.basis = start m d) :
    t.unitCrossings = {x | ∃ i, entries r i = x ∨ -entries r i = x} := by
  have hvalue (i : Fin (m + m)) : t.values.get i =
      ⟨Fin.append (entries r) (fun i => -entries r i) i, 1⟩ := by
    rw [get_values h ht hbasis]
    -- The basic values are those of the right-hand side, which is put together from two halves.
    apply Affine.ext_value
    intro lam
    have hentry := congrFun (entries_rhs r lam) i
    simp only [AffineVector.entries_value] at hentry
    rw [hentry]
    induction i using Fin.addCases with
    | left i =>
      rw [Fin.append_left, Fin.append_left, Affine.value]
      ring
    | right i =>
      rw [Fin.append_right, Fin.append_right, Affine.value]
      ring
  ext x
  constructor
  -- Reduced costs stay as they are, and all basic values change.
  · rintro ⟨c, hslope, hconstant⟩
    cases c with
    | primal row =>
      rw [Tableau.crossed, hvalue] at hconstant
      -- An upper row holds what the entry adds to the bound, and a lower one what it takes off.
      induction row using Fin.addCases with
      | left i =>
        rw [Fin.append_left] at hconstant
        exact ⟨i, .inr hconstant⟩
      | right i =>
        rw [Fin.append_right, neg_neg] at hconstant
        exact ⟨i, .inl hconstant⟩
    | dual column =>
      rw [Tableau.crossed, get_reducedCosts h ht hbasis] at hslope
      -- The costs have no slope.
      exact absurd ((cost_nonneg column).1.symm.trans hslope) zero_ne_one
  · rintro ⟨i, rfl | rfl⟩
    -- The lower row of an entry reaches it, and the upper row its opposite.
    · refine ⟨.primal (Fin.natAdd m i), ?_⟩
      rw [Tableau.crossed, hvalue, Fin.append_right, neg_neg]
      exact ⟨rfl, rfl⟩
    · refine ⟨.primal (Fin.castAdd m i), ?_⟩
      rw [Tableau.crossed, hvalue, Fin.append_left]
      exact ⟨rfl, rfl⟩

/-! ## First entries -/

/-- Every run has a path. Its first entry lists no coefficients and the intercept `b`, if the path is
    not too long for a table, and starts at the largest size of a score under the multipliers there,
    up to the tolerance. -/
def Reduction.StartsFromNull (r : Reduction ℚ m n) (cfg : Config ℚ) (X : Nested ℚ) (A : Mat ℚ k d)
    (b : Option ℚ) {l : ℕ} (score : Vector ℚ m → Fin l → ℚ) : Prop :=
  ∃ o lam dual top, solve r.inst cfg = .ok o ∧
    o.lams.head? = some lam ∧ o.dual.head? = some dual ∧
    IsGreatest (Set.range fun j => |score dual j|) top ∧ cfg.StartsNear top lam ∧
    (r.features * (max 1 o.path.length : ℕ) < tableLimit →
      ∃ P, r.path o = .ok P ∧ P.ListsAt X A 0 ⟨0, b⟩)

/-- A path starts from the null model where the start is settled, stands for the null model at every
    `lam`, and where something of slope one falls to zero just at the scores and their negatives. -/
theorem Reduction.startsFromNull {r : Reduction ℚ m n} {cfg : Config ℚ} {X : Nested ℚ}
    {A : Mat ℚ k d} {intercept : Bool} {b : Option ℚ} {l : ℕ} {score : Vector ℚ m → Fin l → ℚ}
    {t : Tableau ℚ m n} (hr : r.StartsWithFit d intercept) {fit : Vector ℚ n → Fit d}
    (hproject : ∀ z, r.ProjectsTo z (fit z)) (hfit : ∀ z, (fit z).intercept.isSome = intercept)
    (hX : X.read = .ok (.ofMat A)) (hstart : Tableau.start r.inst = .ok t)
    (hsettled : t.IsSettled) (hnull : ∀ lam, fit (t.primal lam) = ⟨0, b⟩) (hl : 0 < l)
    (hscore : ∀ lam, t.unitCrossings =
      {x | ∃ j, score (t.dual lam) j = x ∨ -score (t.dual lam) j = x})
    (hlt : cfg.tol < 1) : r.StartsFromNull cfg X A b score := by
  have hnonempty : Nonempty (Fin l) := ⟨⟨0, hl⟩⟩
  have hgreatest (lam : ℚ) : ∃ top, 0 ≤ top ∧
      IsGreatest (Set.range fun j => |score (t.dual lam) j|) top ∧
        IsGreatest t.unitCrossings top := by
    rw [hscore lam]
    exact exists_isGreatest_abs _
  obtain ⟨o, hsolve, -⟩ := exists_solves r.inst cfg
  obtain ⟨top, hnonneg, -, htop⟩ := hgreatest 0
  obtain ⟨lam, rest, hpath, hnear⟩ := hsettled.startsNear hstart hlt htop hnonneg hsolve
  -- The multipliers listed first are those of the start at the first `lam`.
  obtain ⟨top', -, hscores, htop'⟩ := hgreatest lam
  obtain rfl := htop.unique htop'
  refine ⟨o, lam, t.dual lam, top, hsolve, ?_, ?_, hscores, hnear, fun htable => ?_⟩
  · rw [Outcome.lams, hpath]
    rfl
  · rw [Outcome.dual, hpath]
    rfl
  · -- A path lists what its entries stand for, and the first entry holds the start.
    refine ⟨_, path_eq_ok hr (fun a _ => hproject (a.held.primal a.lam)) htable, ?_⟩
    have hlength : o.path.length = (o.path.map fun a => fit (a.held.primal a.lam)).length :=
      (List.length_map _).symm
    have hlisted : ∀ f ∈ o.path.map fun a => fit (a.held.primal a.lam),
        f.intercept.isSome = intercept := List.forall_mem_map.2 fun _ _ => hfit _
    have hfirst : 0 < (o.path.map fun a => fit (a.held.primal a.lam)).length := by
      rw [← hlength, hpath, List.length_cons]
      exact Nat.succ_pos _
    have hget : (o.path.map fun a => fit (a.held.primal a.lam))[0] = ⟨0, b⟩ := by
      simp only [hpath, List.map_cons, List.getElem_cons_zero, hnull]
    rw [← hget]
    exact RegularizationPath.listsAt_ofFits hX hlength hlisted hfirst

variable (intercept) in
/-- A program that splits residuals starts from the null model with the intercept of its flat start.
    -/
theorem Instance.SplitsResiduals.startsFromNull {cfg : Config ℚ} {X : Nested ℚ} {A : Mat ℚ k d}
    {r : Reduction ℚ n (d + d + Quantile.interceptWidth intercept + (n + n))} {K : Mat ℚ n d}
    {C : Mat ℚ n (Quantile.interceptWidth intercept)} {y : Vector ℚ n} {up down : ℚ} {a : Fin n}
    {q : Fin (Quantile.interceptWidth intercept) → ℚ} {price : Fin n → ℚ}
    {score : Vector ℚ n → Fin d → ℚ} (h : r.inst.SplitsResiduals K C y up down)
    (hflat : FlatStart r.inst.basis C y up down a q price) (hunit : ∀ i j, |C.toMatrix i j| = 1)
    (hC : ∀ j, ∑ i, |C.toMatrix i j| ≤ 10 ^ 6) (hup : 0 ≤ up) (hdown : 0 ≤ down)
    (hr : r.StartsWithFit d intercept) (hX : X.read = .ok (.ofMat A)) (hd : 0 < d)
    (hscore : ∀ v, score (Vector.ofFn v) = v ᵥ* K.toMatrix) (hlt : cfg.tol < 1) :
    r.StartsFromNull cfg X A (readIntercept intercept q) score := by
  obtain ⟨t, hstart⟩ := h.exists_start hflat hunit hC
  obtain ⟨ht, hbasis⟩ := Tableau.valid_of_start hstart
  rw [← hbasis] at hflat
  have hproject : ∀ z, r.ProjectsTo z (fit intercept z) := hr.projectsTo
  refine Reduction.startsFromNull hr hproject (fun z => isSome_readIntercept intercept _) hX hstart
    (h.isSettled hflat ht hup hdown) ?_ hd ?_ hlt
  -- The start fits no coefficients, at whichever position it is recorded.
  · intro lam
    rw [h.primal_eq hflat ht, fit, coefPart_lifted, interceptPart_lifted, signed_split]
  · intro lam
    rw [h.unitCrossings_eq hflat ht, h.dual_eq hflat ht, hscore]

section Families

variable {D : Design ℚ n d} {X : Nested ℚ} {cfg : Config ℚ}

/-- Quantile regression starts from a quantile of the responses, or from nothing. -/
theorem Quantile.startsFromNull {tau : ℚ} {intercept : Bool}
    {r : Reduction ℚ n (width n d intercept)} (h : reduction D tau intercept = .ok r) (hn : 0 < n)
    (hd : 0 < d) (hsize : intercept = true → n ≤ 10 ^ 6) (hX : X.read = .ok (.ofMat D.matrix))
    (hlt : cfg.tol < 1) : ∃ b, b.isSome = intercept ∧
      (intercept = true → D.response.toList.mergeSort[⌊tau * n⌋₊]? = b) ∧
      r.StartsFromNull cfg X D.matrix b fun dual => D.matrix.toMatrixᵀ *ᵥ entries dual := by
  obtain ⟨⟨hpos, hone⟩, -⟩ := reduction_eq_ok_iff.1 h
  obtain ⟨a, q, v, hflat, hq⟩ := exists_flatStart D intercept hn hpos.le hone
  rw [← basis_eq h] at hflat
  refine ⟨readIntercept intercept q, isSome_readIntercept intercept q, fun hintercept => ?_, ?_⟩
  · rw [hq, if_pos hintercept]
  · refine Instance.SplitsResiduals.startsFromNull intercept (splitsResiduals h) hflat
      (abs_interceptBlock intercept) (sum_abs_interceptBlock hsize) hpos.le (sub_nonneg.2 hone.le)
      (startsWithFit h) hX hd ?_ hlt
    intro v
    rw [entries_ofFn, mulVec_transpose]

/-- The support vector machine starts from the label of the majority. -/
theorem Hinge.startsFromNull {r : Reduction ℚ n (width n d)} (h : reduction D = .ok r) (hn : 0 < n)
    (hd : 0 < d) (hsize : n ≤ 10 ^ 6) (hX : X.read = .ok (.ofMat D.matrix)) (hlt : cfg.tol < 1) :
    r.StartsFromNull cfg X D.matrix
      (some (if D.response.toList.count (-1) ≤ D.response.toList.count 1 then 1 else -1))
      fun dual => D.matrix.toMatrixᵀ *ᵥ fun i => D.response[i] * dual[i] := by
  have hy := all_isLabel_iff.1 (reduction_eq_ok_iff.1 h).1
  obtain ⟨a, v, hflat⟩ := exists_flatStart D hn hy
  rw [← basis_eq h] at hflat
  have hunit := abs_signSplit (abs_labels hy)
  -- The intercept is read off the columns as it was written there.
  have hread : readIntercept true (split fun _ : Fin 1 => majorityLabel D.response) =
      some (majorityLabel D.response) :=
    readIntercept_writeIntercept (some (majorityLabel D.response))
  rw [← hy.majorityLabel_eq, ← hread]
  refine Instance.SplitsResiduals.startsFromNull true (splitsResiduals h) hflat hunit
    (sum_abs_le_of_units hunit hsize) zero_le_one le_rfl (startsWithFit h) hX hd ?_ hlt
  intro v
  funext j
  rw [mulVec_transpose]
  simp [labelled, vecMul, dotProduct, mul_assoc, mul_left_comm]

/-- Under a bound on the largest residual a path starts from nothing. -/
theorem MaxNorm.startsFromNull {K : Mat ℚ m d} {y : Vector ℚ m} {name : String}
    {R : Reduction ℚ (m + m) (width m d)} (h : reduction K y name = .ok R) (hm : 0 < m)
    {A : Mat ℚ k d} (hX : X.read = .ok (.ofMat A)) (hlt : cfg.tol < 1) :
    R.StartsFromNull cfg X A none fun _ => entries y := by
  obtain ⟨t, hstart⟩ := exists_start h
  obtain ⟨ht, hbasis⟩ := Tableau.valid_of_start hstart
  rw [basis_eq h] at hbasis
  refine Reduction.startsFromNull (startsWithFit h) (projectsTo h) (fun _ => rfl) hX hstart
    (isSettled h ht hbasis) ?_ hm (fun _ => unitCrossings_eq h ht hbasis) hlt
  intro lam
  -- No coefficient means that both parts are zero.
  have hzero : signed (0 : Fin (d + d) → ℚ) = 0 := by
    funext j
    rw [signed_apply, Pi.zero_apply, Pi.zero_apply, sub_zero, Pi.zero_apply]
  rw [coefPart_primal hbasis, hzero]

end Families

/-- For every design, all budgets and every tolerance below one, paths start without coefficients:
    from the response at position `⌊tau * n⌋` in ascending order where there is an intercept, and from
    the label of the majority, one on a tie. Up to the tolerance they start at the largest score of a
    feature under the multipliers, weighed by the labels for the support vector machine, at the
    largest product of a feature with the responses, or at the largest response, all in size. -/
theorem paths_start_null {X y : Nested ℚ} {A : AnyDesign ℚ} (hA : Design.ofNested? X y = .ok A)
    {cfg : Config ℚ} (hlt : cfg.tol < 1) :
    (∀ (tau : ℚ) (intercept : Bool), 0 < tau → tau < 1 → (intercept = true → A.rows ≤ 10 ^ 6) →
      ∃ r b, Quantile.reduction A.design tau intercept = .ok r ∧ b.isSome = intercept ∧
        (intercept = true → A.design.response.toList.mergeSort[⌊tau * A.rows⌋₊]? = b) ∧
        r.StartsFromNull cfg X A.design.matrix b fun dual =>
          A.design.matrix.toMatrixᵀ *ᵥ entries dual) ∧
    ((∀ i : Fin A.rows, A.design.response[i] = 1 ∨ A.design.response[i] = -1) →
      A.rows ≤ 10 ^ 6 →
      ∃ r, Hinge.reduction A.design = .ok r ∧
        r.StartsFromNull cfg X A.design.matrix
          (some (if A.design.response.toList.count (-1) ≤ A.design.response.toList.count 1 then 1
            else -1))
          fun dual => A.design.matrix.toMatrixᵀ *ᵥ fun i => A.design.response[i] * dual[i]) ∧
    (∃ r, MaxNorm.dantzig A.design = .ok r ∧ r.StartsFromNull cfg X A.design.matrix none fun _ =>
      A.design.matrix.toMatrixᵀ *ᵥ entries A.design.response) ∧
    ∃ r, MaxNorm.compressedSensing A.design = .ok r ∧
      r.StartsFromNull cfg X A.design.matrix none fun _ => entries A.design.response := by
  obtain ⟨hrows, hfeatures⟩ := Design.pos_of_ofNested? hA
  have hX := Design.read_of_ofNested? hA
  refine ⟨?_, ?_, ?_, ?_⟩
  · intro tau intercept hpos hone hsize
    obtain ⟨r, hr⟩ := Quantile.exists_reduction A.design intercept hrows hpos hone
    obtain ⟨b, hb⟩ := Quantile.startsFromNull hr hrows hfeatures hsize hX hlt
    exact ⟨r, b, hr, hb⟩
  · intro hlabels hsize
    obtain ⟨r, hr⟩ := Hinge.exists_reduction A.design hrows hlabels
    exact ⟨r, hr, Hinge.startsFromNull hr hrows hfeatures hsize hX hlt⟩
  · -- The Dantzig selector bounds the products of the features with what is left over.
    obtain ⟨r, hr⟩ := MaxNorm.exists_reduction (A.design.matrix.transpose.mul A.design.matrix)
      (Mat.vecMul A.design.response A.design.matrix) "dantzig" hfeatures
    have hstarts := MaxNorm.startsFromNull hr hfeatures hX hlt
    rw [Mat.entries_vecMul, ← mulVec_transpose] at hstarts
    exact ⟨r, hr, hstarts⟩
  · obtain ⟨r, hr⟩ := MaxNorm.exists_reduction A.design.matrix A.design.response
      "compressed_sensing" hrows
    exact ⟨r, hr, MaxNorm.startsFromNull hr hrows hX hlt⟩

/-- Two of three labels are positive, so the paths of a median regression and of a support vector
    machine start from an intercept of one. -/
theorem paths_start_null_threeObservations : ∃ X y,
    Design.ofNested? X y = .ok threeObservations ∧
    (∃ r, Quantile.reduction threeObservations.design (1 / 2) true = .ok r ∧
      r.StartsFromNull (budgets 9 9 0) X threeObservations.design.matrix (some 1) fun dual =>
        threeObservations.design.matrix.toMatrixᵀ *ᵥ entries dual) ∧
    (∃ r, Hinge.reduction threeObservations.design = .ok r ∧
      r.StartsFromNull (budgets 9 9 0) X threeObservations.design.matrix (some 1) fun dual =>
        threeObservations.design.matrix.toMatrixᵀ *ᵥ fun i =>
          threeObservations.design.response[i] * dual[i]) ∧
    ∃ r, MaxNorm.compressedSensing threeObservations.design = .ok r ∧
      r.StartsFromNull (budgets 9 9 0) X threeObservations.design.matrix none fun _ =>
        entries threeObservations.design.response := by
  have hA : Design.ofNested? (.list [.list [.number 3], .list [.number 2], .list [.number (-1)]])
      (.list [.number 1, .number 1, .number (-1)]) = .ok threeObservations := rfl
  have hlt : (budgets 9 9 0).tol < 1 := by
    show (1e-6 : ℚ) < 1
    norm_num
  obtain ⟨hquantile, hhinge, -, hsensing⟩ := paths_start_null hA hlt
  have hsize : threeObservations.rows ≤ 10 ^ 6 := by decide
  have hlabels : ∀ i : Fin threeObservations.rows, threeObservations.design.response[i] = 1 ∨
      threeObservations.design.response[i] = -1 := by decide
  obtain ⟨r, b, hr, -, hb, hstarts⟩ :=
    hquantile (1 / 2) true (by norm_num) (by norm_num) fun _ => hsize
  -- The second of three sorted responses is the median.
  have hmedian : b = some 1 := by
    have hsorted : threeObservations.design.response.toList.mergeSort = [-1, 1, 1] := by
      show [1, 1, -1].mergeSort = [-1, 1, (1 : ℚ)]
      norm_num [List.mergeSort, List.MergeSort.Internal.splitInTwo]
    have hposition : ⌊(1 / 2 : ℚ) * threeObservations.rows⌋₊ = 1 := by
      show ⌊(1 / 2 : ℚ) * (3 : ℕ)⌋₊ = 1
      norm_num
    rw [← hb rfl, hsorted, hposition]
    rfl
  rw [hmedian] at hstarts
  refine ⟨_, _, hA, ⟨r, hr, hstarts⟩, ?_, hsensing⟩
  obtain ⟨r, hr, hstarts⟩ := hhinge hlabels hsize
  -- One is the label of two observations of three.
  have hmajority : (if threeObservations.design.response.toList.count (-1) ≤
      threeObservations.design.response.toList.count 1 then (1 : ℚ) else -1) = 1 := by
    decide
  rw [hmajority] at hstarts
  exact ⟨r, hr, hstarts⟩

end ParametricLP
