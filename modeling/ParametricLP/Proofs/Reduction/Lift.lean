import Mathlib
import ParametricLP.Proofs.Reduction.Path
import ParametricLP.Proofs.Reduction.Start
import ParametricLP.Proofs.Run.Tightening
import ParametricLP.Proofs.Run.Valid

/-!
# Projections lose nothing

A number of either sign is held by two columns of opposite entries. No basis holds both, so of the
two parts one is zero: where the solution of a tableau is not negative, they are the positive and
the negative part of the number. The equations then leave no choice for what else the solution
holds. So every nonnegative solution on the path of a reduction, whatever the tolerance was, is
determined by the coefficients and the intercept read off it, and costs what these lose.

## Key results

- `Tableau.Valid.notMem_basis_of_opposite`: no basis holds two opposite columns
- `Quantile.primal_eq_lift`, `Hinge.primal_eq_lift`, `MaxNorm.primal_eq_lifted`: what solutions hold
- `Reduction.losesNothing`: where that determines the solutions on a path
- `solutions_lifted`: the solutions on the paths of all reductions of a design
-/

namespace ParametricLP

open Matrix

variable {m n d k w : ℕ} {lam : ℚ}

/-! ## Opposite columns -/

/-- The two columns differ in the sign of all entries. -/
def Instance.Opposite (p : Instance ℚ m n) (i j : Fin n) : Prop :=
  p.matrix.toMatrix.col j = -p.matrix.toMatrix.col i

namespace Tableau

variable {p : Instance ℚ m n} {t : Tableau ℚ m n} {i j : Fin n}

/-- A basis never holds two opposite columns, because they are not independent. -/
theorem Valid.notMem_basis_of_opposite (ht : t.Valid p) (h : p.Opposite i j) (hi : i ∈ t.basis) :
    j ∉ t.basis := by
  intro hj
  obtain ⟨a, rfl⟩ := mem_iff_exists_entries.1 hi
  obtain ⟨b, rfl⟩ := mem_iff_exists_entries.1 hj
  -- The row that holds the first has a one in its column, and so minus one in the other.
  have hneg : (t.row p a)[t.basis[b]] = -(t.row p a)[t.basis[a]] := by
    have hcol := congrArg (t.inverse.toMatrix a ⬝ᵥ ·) h
    rw [dotProduct_neg] at hcol
    simp only [← entries_apply, entries_row]
    exact hcol
  rw [ht.row_basis, ht.row_basis, if_pos rfl] at hneg
  split at hneg <;> norm_num at hneg

/-- So one of the two variables is zero. -/
theorem Valid.primal_eq_zero_of_opposite (ht : t.Valid p) (h : p.Opposite i j) (lam : ℚ) :
    (t.primal lam)[i] = 0 ∨ (t.primal lam)[j] = 0 := by
  by_cases hi : i ∈ t.basis
  · exact .inr (primal_of_notMem (ht.notMem_basis_of_opposite h hi) lam)
  · exact .inl (primal_of_notMem hi lam)

end Tableau

/-! ## Programs that split residuals -/

namespace SplitResiduals

/-- Blocks determine a solution. -/
theorem eq_lifted_iff {z : Vector ℚ (d + d + w + (n + n))} {beta : Fin d → ℚ} {q : Fin w → ℚ}
    {residual : Fin n → ℚ} : z = lifted beta q residual ↔
      coefPart z = split beta ∧ interceptPart z = q ∧ residualPart z = split residual := by
  constructor
  · rintro rfl
    exact ⟨coefPart_lifted .., interceptPart_lifted .., residualPart_lifted ..⟩
  · rintro ⟨hcoef, hintercept, hresidual⟩
    refine entries_injective (funext fun j => ?_)
    rw [lifted, entries_ofFn, ← hcoef, ← hintercept, ← hresidual]
    induction j using Fin.addCases with
    | left j =>
      rw [Fin.append_left]
      induction j using Fin.addCases with
      | left j => rw [Fin.append_left]; rfl
      | right j => rw [Fin.append_right]; rfl
    | right j => rw [Fin.append_right]; rfl

end SplitResiduals

open SplitResiduals

namespace Instance.SplitsResiduals

variable {p : Instance ℚ n (d + d + w + (n + n))} {X : Mat ℚ n d} {C : Mat ℚ n w} {y : Vector ℚ n}
  {up down : ℚ} {t : Tableau ℚ n (d + d + w + (n + n))}

/-- The two columns of a coefficient are opposite. -/
theorem opposite_coef (h : p.SplitsResiduals X C y up down) (j : Fin d) :
    p.Opposite (Fin.castAdd (n + n) (Fin.castAdd w (Fin.castAdd d j)))
      (Fin.castAdd (n + n) (Fin.castAdd w (Fin.natAdd d j))) := by
  funext i
  rw [Pi.neg_apply, Matrix.col_apply, Matrix.col_apply, h.matrix_eq]
  simp only [Mat.toMatrix_beside_castAdd, Mat.toMatrix_signSplit_castAdd,
    Mat.toMatrix_signSplit_natAdd]

/-- The two columns of a residual are opposite. -/
theorem opposite_residual (h : p.SplitsResiduals X C y up down) (i : Fin n) :
    p.Opposite (Fin.natAdd (d + d + w) (Fin.castAdd n i))
      (Fin.natAdd (d + d + w) (Fin.natAdd n i)) := by
  funext k
  rw [Pi.neg_apply, Matrix.col_apply, Matrix.col_apply, h.matrix_eq]
  simp only [Mat.toMatrix_beside_natAdd, Mat.toMatrix_signSplit_castAdd,
    Mat.toMatrix_signSplit_natAdd]

/-- A nonnegative solution holds the parts of its coefficients and of the residuals left by it. -/
theorem primal_eq_lifted (h : p.SplitsResiduals X C y up down) (ht : t.Valid p)
    (hnonneg : ∀ j : Fin (d + d + w + (n + n)), 0 ≤ (t.primal lam)[j]) :
    t.primal lam = lifted (signed (coefPart (t.primal lam))) (interceptPart (t.primal lam))
      (entries y - X.toMatrix *ᵥ signed (coefPart (t.primal lam)) -
        C.toMatrix *ᵥ interceptPart (t.primal lam)) := by
  obtain ⟨hequations, -⟩ := h.feasible_iff.1 ⟨ht.primal_equations lam, hnonneg⟩
  -- By the equations the residuals are what their two columns stand for.
  have hresidual : entries y - X.toMatrix *ᵥ signed (coefPart (t.primal lam)) -
      C.toMatrix *ᵥ interceptPart (t.primal lam) = signed (residualPart (t.primal lam)) := by
    rw [← hequations]
    abel
  rw [hresidual]
  refine eq_lifted_iff.2 ⟨(split_signed (fun j => hnonneg _) fun j => ?_).symm, rfl,
    (split_signed (fun j => hnonneg _) fun i => ?_).symm⟩
  · exact ht.primal_eq_zero_of_opposite (h.opposite_coef j) lam
  · exact ht.primal_eq_zero_of_opposite (h.opposite_residual i) lam

/-- It holds the parts of its intercept if the columns of the intercept are opposite. -/
theorem interceptPart_eq {p : Instance ℚ n (d + d + (k + k) + (n + n))} {S : Mat ℚ n k}
    {t : Tableau ℚ n (d + d + (k + k) + (n + n))} (h : p.SplitsResiduals X S.signSplit y up down)
    (ht : t.Valid p) (hnonneg : ∀ j : Fin (d + d + (k + k) + (n + n)), 0 ≤ (t.primal lam)[j]) :
    split (signed (interceptPart (t.primal lam))) = interceptPart (t.primal lam) := by
  refine split_signed (fun j => hnonneg _) fun j => ?_
  refine ht.primal_eq_zero_of_opposite ?_ lam
  funext i
  rw [Pi.neg_apply, Matrix.col_apply, Matrix.col_apply, h.matrix_eq]
  simp only [Mat.toMatrix_beside_castAdd, Mat.toMatrix_beside_natAdd,
    Mat.toMatrix_signSplit_castAdd, Mat.toMatrix_signSplit_natAdd]

end Instance.SplitsResiduals

namespace SplitResiduals

/-- The fit that a solution stands for. -/
def fit (intercept : Bool) (z : Vector ℚ (d + d + Quantile.interceptWidth intercept + (n + n))) :
    Fit d :=
  ⟨signed (coefPart z), readIntercept intercept (interceptPart z)⟩

/-- An intercept is written as it was read where its columns hold its parts. -/
theorem writeIntercept_readIntercept {q : Fin (1 + 1) → ℚ} (hq : split (signed q) = q) :
    writeIntercept ((readIntercept true q).getD 0) true = q := by
  have hsigned : (fun _ : Fin 1 => signed (k := 1) q 0) = signed q :=
    funext (Fin.forall_fin_one.2 rfl)
  exact (congrArg split hsigned).trans hq

end SplitResiduals

/-! ## Quantile regression -/

namespace Quantile

variable {D : Design ℚ n d} {tau : ℚ} {intercept : Bool} {r : Reduction ℚ n (width n d intercept)}
  {t : Tableau ℚ n (width n d intercept)}

/-- The solution that a fit determines: the positive and negative parts of its coefficients, of its
    intercept if there is one, and of the residuals that its predictions leave. -/
def lift (D : Design ℚ n d) (intercept : Bool) (f : Fit d) : Vector ℚ (width n d intercept) :=
  lifted f.coef (writeIntercept (f.intercept.getD 0) intercept) fun i =>
    D.response[i] - f.predict D.matrix[i]

/-- A nonnegative solution is determined by the fit that it stands for. -/
theorem primal_eq_lift (h : reduction D tau intercept = .ok r) (ht : t.Valid r.inst)
    (hnonneg : ∀ j : Fin (width n d intercept), 0 ≤ (t.primal lam)[j]) :
    t.primal lam = lift D intercept (fit intercept (t.primal lam)) := by
  have hsplits := splitsResiduals h
  -- An intercept that is missing has no columns to be written in.
  have hintercept : writeIntercept ((fit intercept (t.primal lam)).intercept.getD 0) intercept =
      interceptPart (t.primal lam) := by
    cases intercept with
    | true => exact writeIntercept_readIntercept (hsplits.interceptPart_eq (S := ones n) ht hnonneg)
    | false => exact funext nofun
  have hleft := sub_eq_leftOver (X := D.matrix) (y := D.response) interceptBlock_mulVec
    (signed (coefPart (t.primal lam))) (interceptPart (t.primal lam))
  refine (hsplits.primal_eq_lifted ht hnonneg).trans ?_
  rw [lift, hintercept]
  congr 1
  exact hleft.trans (funext (leftOver_eq D _))

/-- It costs the penalised check loss. -/
theorem objective_lift (h : reduction D tau intercept = .ok r) (lam : ℚ) (f : Fit d) :
    r.inst.objective lam (lift D intercept f) = loss D tau lam f := by
  rw [lift, (splitsResiduals h).objective_lifted]
  simp only [← checkLoss_eq_weighed]
  rfl

end Quantile

/-! ## The support vector machine -/

namespace Hinge

variable {D : Design ℚ n d} {r : Reduction ℚ n (width n d)} {t : Tableau ℚ n (width n d)}

/-- The solution that a fit determines: the positive and negative parts of its coefficients and of
    its intercept, and what its labelled predictions fall short of one and exceed it. -/
def lift (D : Design ℚ n d) (f : Fit d) : Vector ℚ (width n d) :=
  Vector.ofFn (Fin.append (Fin.append (split f.coef) (split fun _ : Fin 1 => f.intercept.getD 0))
    (Fin.append (fun i : Fin n => max 0 (1 - D.response[i] * f.predict D.matrix[i]))
      fun i : Fin n => max 0 (D.response[i] * f.predict D.matrix[i] - 1)))

/-- What falls short and what exceeds are the two parts of a residual. -/
theorem lift_eq_lifted (D : Design ℚ n d) (f : Fit d) : lift D f =
    lifted f.coef (split fun _ : Fin 1 => f.intercept.getD 0)
      fun i : Fin n => 1 - D.response[i] * f.predict D.matrix[i] := by
  unfold lift lifted
  congr 2
  funext j
  induction j using Fin.addCases with
  | left i => rw [Fin.append_left, split_castAdd, posPart_def, max_comm]
  | right i => rw [Fin.append_right, split_natAdd, negPart_def, neg_sub, max_comm]

/-- A nonnegative solution is determined by the fit that it stands for. -/
theorem primal_eq_lift (h : reduction D = .ok r) (ht : t.Valid r.inst)
    (hnonneg : ∀ j : Fin (width n d), 0 ≤ (t.primal lam)[j]) :
    t.primal lam = lift D (fit true (t.primal lam)) := by
  have hsplits := splitsResiduals h
  -- The intercept is written in its two columns as it was read from them.
  have hintercept : (split fun _ : Fin 1 => (fit true (t.primal lam)).intercept.getD 0) =
      interceptPart (t.primal lam) :=
    writeIntercept_readIntercept (hsplits.interceptPart_eq ht hnonneg)
  have hleft := @sub_eq_leftOver n d true (labelled D) (labels D).signSplit _ (Vector.replicate n 1)
    labels_mulVec (signed (coefPart (t.primal lam))) (interceptPart (t.primal lam))
  refine (hsplits.primal_eq_lifted ht hnonneg).trans ?_
  rw [lift_eq_lifted, hintercept]
  congr 1
  exact hleft.trans (funext (leftOver_eq D _))

/-- It costs the penalised hinge loss. -/
theorem objective_lift (h : reduction D = .ok r) (lam : ℚ) (f : Fit d) :
    r.inst.objective lam (lift D f) = loss D lam f := by
  rw [lift_eq_lifted, (splitsResiduals h).objective_lifted]
  simp only [← max_eq_weighed]
  rfl

end Hinge

/-! ## Bounds on the largest residual -/

namespace MaxNorm

variable {K : Mat ℚ m d} {r : Vector ℚ m} {name : String} {R : Reduction ℚ (m + m) (width m d)}
  {t : Tableau ℚ (m + m) (width m d)}

/-- The two columns of a coefficient are opposite in the upper rows and in the lower ones. -/
theorem opposite_coef (h : reduction K r name = .ok R) (j : Fin d) :
    R.inst.Opposite (Fin.castAdd (m + m) (Fin.castAdd d j))
      (Fin.castAdd (m + m) (Fin.natAdd d j)) := by
  funext i
  rw [Pi.neg_apply, Matrix.col_apply, Matrix.col_apply, (parts_eq h).1, matrix]
  induction i using Fin.addCases with
  | left i =>
    simp only [Mat.toMatrix_above_castAdd, Mat.toMatrix_beside_castAdd,
      Mat.toMatrix_signSplit_castAdd, Mat.toMatrix_signSplit_natAdd]
  | right i =>
    simp only [Mat.toMatrix_above_natAdd, Mat.toMatrix_beside_castAdd, Mat.toMatrix_neg,
      Matrix.neg_apply, Mat.toMatrix_signSplit_castAdd, Mat.toMatrix_signSplit_natAdd]

/-- A nonnegative solution holds the parts of its coefficients and what they leave of the bounds. -/
theorem primal_eq_lifted (h : reduction K r name = .ok R) (ht : t.Valid R.inst)
    (hnonneg : ∀ j : Fin (width m d), 0 ≤ (t.primal lam)[j]) :
    t.primal lam = lifted K r lam (signed (coefPart (t.primal lam))) := by
  obtain ⟨hslack, -⟩ := (feasible_iff h).1 ⟨ht.primal_equations lam, hnonneg⟩
  have hcoef : split (signed (coefPart (t.primal lam))) = coefPart (t.primal lam) :=
    split_signed (fun j => hnonneg _) fun j =>
      ht.primal_eq_zero_of_opposite (opposite_coef h j) lam
  refine entries_injective (funext fun j => ?_)
  rw [lifted, entries_ofFn, hcoef]
  -- The two equations of a residual give its two slacks.
  induction j using Fin.addCases with
  | left j => rw [Fin.append_left]; rfl
  | right j =>
    rw [Fin.append_right]
    induction j using Fin.addCases with
    | left i => rw [Fin.append_left]; exact (hslack i).1
    | right i => rw [Fin.append_right]; exact (hslack i).2

/-- It costs the absolute coefficients. -/
theorem objective_lifted (h : reduction K r name = .ok R) (lam : ℚ) (f : Fit d) :
    R.inst.objective lam (lifted K r lam f.coef) = f.norm := by
  rw [objective_eq h, coefPart_lifted, sum_split]
  rfl

end MaxNorm

/-! ## Paths -/

/-- At the breakpoint `i` the path lists the fit `f`, and predicts what it does for the observations
    `A` that the nested lists `X` hold. -/
structure RegularizationPath.ListsAt (P : RegularizationPath ℚ m n) (X : Nested ℚ) (A : Mat ℚ k d)
    (i : ℕ) (f : Fit d) : Prop where
  coef_eq : P.coef[i]? = some (List.ofFn f.coef)
  intercept_eq : P.intercept.bind (·[i]?) = f.intercept
  predict_eq : P.predict X i = .ok (.ofVector (Vector.map f.predict A))

/-- A path of fits lists each of them at its place. -/
theorem RegularizationPath.listsAt_ofFits {intercept : Bool} {fits : List (Fit d)}
    {o : Outcome ℚ m n} {X : Nested ℚ} {A : Mat ℚ k d} (hX : X.read = .ok (.ofMat A))
    (hlength : o.path.length = fits.length) (hfits : ∀ f ∈ fits, f.intercept.isSome = intercept)
    {i : ℕ} (hi : i < fits.length) : (ofFits intercept fits o).ListsAt X A i fits[i] := by
  constructor
  · simp [ofFits, hi]
  · exact intercept_ofFits hfits hi
  · exact predict_ofFits hX hlength hfits hi

namespace Reduction

variable {r : Reduction ℚ m n} {intercept : Bool} {lift : ℚ → Fit d → Vector ℚ n}
  {loss : ℚ → Fit d → ℚ} {cfg : Config ℚ} {X : Nested ℚ} {A : Mat ℚ k d}

/-- The program of `r` has an outcome, and the path read off it, if its coefficients are not too
    many for a table, loses nothing: where a solution is not negative, the path lists a fit that
    determines the solution and that costs what it does. -/
def LosesNothing (r : Reduction ℚ m n) (cfg : Config ℚ) (X : Nested ℚ) (A : Mat ℚ k d)
    (intercept : Bool) (lift : ℚ → Fit d → Vector ℚ n) (loss : ℚ → Fit d → ℚ) : Prop :=
  ∃ o, solve r.inst cfg = .ok o ∧
    (r.features * (max 1 o.path.length : ℕ) < tableLimit → ∃ P, r.path o = .ok P ∧
      ∀ i (a : Mark ℚ (Tableau ℚ m n)), o.path[i]? = some a →
        (∀ j : Fin n, 0 ≤ (a.held.primal a.lam)[j]) →
          ∃ f : Fit d, f.intercept.isSome = intercept ∧ P.ListsAt X A i f ∧
            a.held.primal a.lam = lift a.lam f ∧
            r.inst.objective a.lam (a.held.primal a.lam) = loss a.lam f)

/-- The path loses nothing where nonnegative solutions of valid tableaus are determined by the fits
    that they stand for. -/
theorem losesNothing (hr : r.StartsWithFit d intercept) {fit : Vector ℚ n → Fit d}
    (hproject : ∀ z, r.ProjectsTo z (fit z)) (hfit : ∀ z, (fit z).intercept.isSome = intercept)
    (hX : X.read = .ok (.ofMat A))
    (hlift : ∀ (t : Tableau ℚ m n) lam, t.Valid r.inst → (∀ j : Fin n, 0 ≤ (t.primal lam)[j]) →
      t.primal lam = lift lam (fit (t.primal lam)))
    (hloss : ∀ lam f, r.inst.objective lam (lift lam f) = loss lam f) :
    r.LosesNothing cfg X A intercept lift loss := by
  obtain ⟨o, hsolve, hsolves⟩ := exists_solves r.inst cfg
  refine ⟨o, hsolve, fun htable => ?_⟩
  have hpath := path_eq_ok hr (fun a _ => hproject (a.held.primal a.lam)) htable
  refine ⟨_, hpath, fun i a ha hnonneg => ?_⟩
  -- Tableaus on the path are valid whatever the tolerance was, and that is all that is needed.
  have hheld := hlift _ _ (hsolves.validPath.valid a (List.mem_of_getElem? ha)) hnonneg
  refine ⟨fit (a.held.primal a.lam), hfit _, ?_, hheld, ?_⟩
  · -- The fit is the one that the path lists at this place.
    obtain ⟨hi, rfl⟩ := List.getElem?_eq_some_iff.1 ha
    have hlength : o.path.length = (o.path.map fun a => fit (a.held.primal a.lam)).length :=
      (List.length_map _).symm
    have hlisted : ∀ f ∈ o.path.map fun a => fit (a.held.primal a.lam),
        f.intercept.isSome = intercept := List.forall_mem_map.2 fun _ _ => hfit _
    have hat := RegularizationPath.listsAt_ofFits hX hlength hlisted (hlength ▸ hi)
    rwa [List.getElem_map] at hat
  · rw [← hloss, ← hheld]

end Reduction

section Families

variable {D : Design ℚ n d} {X : Nested ℚ}

/-- The path of a quantile regression loses nothing. -/
theorem Quantile.losesNothing {tau : ℚ} {intercept : Bool}
    {r : Reduction ℚ n (width n d intercept)} (h : reduction D tau intercept = .ok r)
    (hX : X.read = .ok (.ofMat D.matrix)) (cfg : Config ℚ) :
    r.LosesNothing cfg X D.matrix intercept (fun _ => lift D intercept) (loss D tau) := by
  have hr := startsWithFit h
  apply Reduction.losesNothing hr hr.projectsTo _ hX
  · intro t lam ht hnonneg
    exact primal_eq_lift h ht hnonneg
  · exact objective_lift h
  · intro z
    exact isSome_readIntercept intercept _

/-- The path of a support vector machine loses nothing. -/
theorem Hinge.losesNothing {r : Reduction ℚ n (width n d)} (h : reduction D = .ok r)
    (hX : X.read = .ok (.ofMat D.matrix)) (cfg : Config ℚ) :
    r.LosesNothing cfg X D.matrix true (fun _ => lift D) (loss D) := by
  have hr := startsWithFit h
  -- The columns of this program are those of a quantile regression with an intercept.
  have hproject := @Reduction.StartsWithFit.projectsTo n d true r hr
  apply Reduction.losesNothing hr hproject _ hX
  · intro t lam ht hnonneg
    exact primal_eq_lift h ht hnonneg
  · exact objective_lift h
  · intro z
    exact isSome_readIntercept true _

/-- The paths of programs under a bound lose nothing. -/
theorem MaxNorm.losesNothing {K : Mat ℚ m d} {b : Vector ℚ m} {name : String}
    {r : Reduction ℚ (m + m) (width m d)} (h : reduction K b name = .ok r)
    (hX : X.read = .ok (.ofMat D.matrix)) (cfg : Config ℚ) :
    r.LosesNothing cfg X D.matrix false (fun lam f => lifted K b lam f.coef) fun _ => Fit.norm := by
  apply Reduction.losesNothing (startsWithFit h) (projectsTo h) _ hX
  · intro t lam ht hnonneg
    exact primal_eq_lifted h ht hnonneg
  · exact objective_lifted h
  · intro z
    rfl

end Families

/-- For every design, all budgets and all tolerances: each nonnegative solution on the path of a
    reduction is determined by the coefficients and the intercept that the path lists for it, and
    costs the penalised loss or the absolute coefficients of these. Numbers of either sign are
    written by their positive and negative parts; beside them stand the parts of the residuals that
    the predictions leave, the hinge losses and surpluses of the labelled predictions, or what the
    residuals leave of the bound. -/
theorem solutions_lifted {X y : Nested ℚ} {A : AnyDesign ℚ} (hA : Design.ofNested? X y = .ok A)
    (cfg : Config ℚ) :
    (∀ (tau : ℚ) (intercept : Bool), 0 < tau → tau < 1 →
      ∃ r, Quantile.reduction A.design tau intercept = .ok r ∧
        r.LosesNothing cfg X A.design.matrix intercept
          (fun _ f => Quantile.lift A.design intercept f) (Quantile.loss A.design tau)) ∧
    ((∀ i : Fin A.rows, A.design.response[i] = 1 ∨ A.design.response[i] = -1) →
      ∃ r, Hinge.reduction A.design = .ok r ∧
        r.LosesNothing cfg X A.design.matrix true (fun _ f => Hinge.lift A.design f)
          (Hinge.loss A.design)) ∧
    (∃ r, MaxNorm.dantzig A.design = .ok r ∧ r.LosesNothing cfg X A.design.matrix false
      (fun lam f => MaxNorm.lifted (A.design.matrix.transpose.mul A.design.matrix)
        (Mat.vecMul A.design.response A.design.matrix) lam f.coef) fun _ f => f.norm) ∧
    ∃ r, MaxNorm.compressedSensing A.design = .ok r ∧ r.LosesNothing cfg X A.design.matrix false
      (fun lam f => MaxNorm.lifted A.design.matrix A.design.response lam f.coef)
      fun _ f => f.norm := by
  obtain ⟨hrows, hfeatures⟩ := Design.pos_of_ofNested? hA
  have hX := Design.read_of_ofNested? hA
  refine ⟨?_, ?_, ?_, ?_⟩
  · intro tau intercept hpos hlt
    obtain ⟨r, hr⟩ := Quantile.exists_reduction A.design intercept hrows hpos hlt
    exact ⟨r, hr, Quantile.losesNothing hr hX cfg⟩
  · intro hlabels
    obtain ⟨r, hr⟩ := Hinge.exists_reduction A.design hrows hlabels
    exact ⟨r, hr, Hinge.losesNothing hr hX cfg⟩
  · obtain ⟨r, hr⟩ := MaxNorm.exists_reduction (A.design.matrix.transpose.mul A.design.matrix)
      (Mat.vecMul A.design.response A.design.matrix) "dantzig" hfeatures
    exact ⟨r, hr, MaxNorm.losesNothing hr hX cfg⟩
  · obtain ⟨r, hr⟩ := MaxNorm.exists_reduction A.design.matrix A.design.response
      "compressed_sensing" hrows
    exact ⟨r, hr, MaxNorm.losesNothing hr hX cfg⟩

/-- The labels without the last step: the path of compressed sensing has a second entry, at the bound
    `1 / 2`, where half of the feature meets it without a negative variable. -/
theorem exists_sensing_threeObservations : ∃ r o a P,
    MaxNorm.compressedSensing threeObservations.design = .ok r ∧
      solve r.inst (budgets 9 9 0) = .ok o ∧ o.path[1]? = some a ∧ r.path o = .ok P ∧
      r.features * (max 1 o.path.length : ℕ) < tableLimit ∧ a.lam = 1 / 2 ∧
      (∀ j : Fin (MaxNorm.width threeObservations.rows threeObservations.features),
        (0 : ℚ) ≤ (a.held.primal a.lam)[j]) ∧ P.coef[1]? = some [1 / 2] := by
  -- One run shows the second entry, the signs of its variables and what is listed for it.
  have hrun : (MaxNorm.compressedSensing threeObservations.design).toOption.map (fun r =>
      (solve r.inst (budgets 9 9 0)).toOption.map fun o =>
        ((r.path o).toOption.map fun P => P.coef[1]?, o.path[1]?.map fun a =>
          decide (r.features * (max 1 o.path.length : ℕ) < tableLimit ∧ a.lam = 1 / 2 ∧
            ∀ j : Fin (MaxNorm.width threeObservations.rows threeObservations.features),
              (0 : ℚ) ≤ (a.held.primal a.lam)[j]))) =
      some (some (some (some [1 / 2]), some true)) := by
    decide +kernel
  obtain ⟨r, hr, hrun⟩ := exists_of_map_toOption hrun
  obtain ⟨o, hsolve, hrun⟩ := exists_of_map_toOption hrun
  obtain ⟨hpath, hentry⟩ := Prod.mk.inj hrun
  obtain ⟨P, hP, hcoef⟩ := exists_of_map_toOption hpath
  obtain ⟨a, ha, hat⟩ := Option.map_eq_some_iff.1 hentry
  obtain ⟨htable, hlam, hnonneg⟩ := of_decide_eq_true hat
  exact ⟨r, o, a, P, hr, hsolve, ha, hP, htable, hlam, hnonneg, hcoef⟩

/-- Labels can be regressed on and separated, along paths that end at zero. Where the bound on the
    residuals is `1 / 2` no variable is negative, and the path lists the coefficient `1 / 2`, which
    determines the solution. -/
theorem solutions_lifted_threeObservations : ∃ X y,
    Design.ofNested? X y = .ok threeObservations ∧
    (∃ r, Quantile.reduction threeObservations.design (1 / 3) true = .ok r ∧
      r.LosesNothing (budgets 9 9 0) X threeObservations.design.matrix true
        (fun _ f => Quantile.lift threeObservations.design true f)
        (Quantile.loss threeObservations.design (1 / 3))) ∧
    (∃ r, Hinge.reduction threeObservations.design = .ok r ∧
      r.LosesNothing (budgets 9 9 0) X threeObservations.design.matrix true
        (fun _ f => Hinge.lift threeObservations.design f) (Hinge.loss threeObservations.design)) ∧
    ∃ r, MaxNorm.compressedSensing threeObservations.design = .ok r ∧
      r.LosesNothing (budgets 9 9 0) X threeObservations.design.matrix false
        (fun lam f => MaxNorm.lifted threeObservations.design.matrix
          threeObservations.design.response lam f.coef) (fun _ f => f.norm) ∧
      ∃ o a P, solve r.inst (budgets 9 9 0) = .ok o ∧ o.path[1]? = some a ∧ a.lam = 1 / 2 ∧
        (∀ j : Fin (MaxNorm.width threeObservations.rows threeObservations.features),
          (0 : ℚ) ≤ (a.held.primal a.lam)[j]) ∧ r.path o = .ok P ∧
        P.coef[1]? = some [1 / 2] ∧
        a.held.primal a.lam = MaxNorm.lifted threeObservations.design.matrix
          threeObservations.design.response (1 / 2) fun _ => 1 / 2 := by
  have hA : Design.ofNested? (.list [.list [.number 3], .list [.number 2], .list [.number (-1)]])
      (.list [.number 1, .number 1, .number (-1)]) = .ok threeObservations := rfl
  obtain ⟨hquantile, hhinge, -, r, hr, hsensing⟩ := solutions_lifted hA (budgets 9 9 0)
  have hlabels : ∀ i : Fin threeObservations.rows, threeObservations.design.response[i] = 1 ∨
      threeObservations.design.response[i] = -1 := by decide
  obtain ⟨r', o, a, P, hr', hsolve, ha, hP, htable, hlam, hnonneg, hcoef⟩ :=
    exists_sensing_threeObservations
  obtain rfl : r = r' := Except.ok.inj (hr.symm.trans hr')
  -- The solution at this entry is the one that the coefficient listed for it determines.
  obtain ⟨o', hsolve', hentries⟩ := hsensing
  obtain rfl : o = o' := Except.ok.inj (hsolve.symm.trans hsolve')
  obtain ⟨P', hP', hfits⟩ := hentries htable
  obtain rfl : P = P' := Except.ok.inj (hP.symm.trans hP')
  obtain ⟨f, -, hlists, hprimal, -⟩ := hfits 1 a ha hnonneg
  -- The coefficients listed are those of the fit.
  have hhalf : f.coef = fun _ => 1 / 2 := by
    have hlisted := Option.some.inj (hlists.coef_eq.symm.trans hcoef)
    exact List.ofFn_injective hlisted
  rw [hlam] at hprimal
  simp only [hhalf] at hprimal
  exact ⟨_, _, hA, hquantile (1 / 3) true (by norm_num) (by norm_num), hhinge hlabels, r, hr,
    ⟨o, hsolve, hentries⟩, o, a, P, hsolve, ha, hlam, hnonneg, hP, hcoef, hlam ▸ hprimal⟩

end ParametricLP
