import ParametricLP.Instance.Basic
import ParametricLP.Mat.Inverse

/-! # The tableau of a basis

A `Tableau` holds a basis, the inverse of its matrix and what follows from the inverse: basic
values, multipliers and reduced costs, all affine in `lam`. `Tableau.pivot` replaces one column of
the basis; the inverse is corrected, or computed afresh once enough corrections have been made. When
that fails the basis has changed already: the tableau is then `Tableau.swap`, with the inverse and
all that follows from it as before. -/

namespace ParametricLP

variable {α : Type} [Scalar α]

/-- Working state of the method for one basis. -/
structure Tableau (α : Type) (m n : Nat) where
  /-- Column held by each row. -/
  basis : Vector (Fin n) m
  /-- Whether each column is held by a row. -/
  isBasic : Vector Bool n
  /-- Inverse of the matrix of the basis. -/
  inverse : Mat α m m
  /-- Value of the variable held by each row. -/
  values : AffineVector α m
  /-- Simplex multipliers. -/
  duals : AffineVector α m
  /-- Cost of each column less the multipliers' price for it, zero on the basis. -/
  reducedCosts : AffineVector α n
  /-- Corrections made since the inverse was last computed afresh. -/
  updates : Nat

namespace Tableau

variable {m n : Nat}

/-- Marks for the columns of a basis. -/
def marks (basis : Vector (Fin n) m) : Vector Bool n :=
  Vector.ofFn fun j => basis.contains j

/-- Basic values, multipliers and reduced costs recomputed from the inverse. -/
def refresh (p : Instance α m n) (t : Tableau α m n) : Tableau α m n :=
  let duals := (p.cost.take t.basis).transformRow t.inverse
  let priced := duals.transformRow p.matrix
  let held := marks t.basis
  { t with
    values := p.rhs.transform t.inverse
    duals
    reducedCosts := .ofFn fun j =>
      if held[j] then ⟨0, 0⟩ else (p.cost.get j).sub (priced.get j) }

/-- The inverse computed afresh from the basis, and all that follows from it. -/
def refactor (p : Instance α m n) (t : Tableau α m n) : Except SingularBasis (Tableau α m n) :=
  (p.basisMatrix t.basis).inverse?.map fun inverse => refresh p { t with inverse, updates := 0 }

/-- The tableau of a basis. -/
def ofBasis (p : Instance α m n) (basis : Vector (Fin n) m) :
    Except SingularBasis (Tableau α m n) :=
  refactor p {
    basis
    isBasic := marks basis
    inverse := Mat.identity m
    values := .fixed (Vector.replicate m 0)
    duals := .fixed (Vector.replicate m 0)
    reducedCosts := .fixed (Vector.replicate n 0)
    updates := 0 }

/-- The tableau of the starting basis. -/
def start (p : Instance α m n) : Except SingularBasis (Tableau α m n) :=
  ofBasis p p.basis

/-- The direction in which the basic values move when column `j` enters. -/
def column (p : Instance α m n) (t : Tableau α m n) (j : Fin n) : Vector α m :=
  t.inverse.mulVec (p.matrix.column j)

/-- Row `i` of the inverse times the problem's matrix. -/
def row (p : Instance α m n) (t : Tableau α m n) (i : Fin m) : Vector α n :=
  Mat.vecMul t.inverse[i] p.matrix

/-- The bookkeeping of a pivot: `entering` is held by `row` instead of the column before, and one
    more correction counts. The inverse is left alone. -/
def swap (t : Tableau α m n) (row : Fin m) (entering : Fin n) : Tableau α m n :=
  { t with
    basis := t.basis.set row entering row.isLt
    isBasic :=
      (t.isBasic.set t.basis[row] false t.basis[row].isLt).set entering true entering.isLt
    updates := t.updates + 1 }

/-- The tableau after `entering` has replaced the column held by `row`; every `every` corrections
    the inverse is computed afresh, which may fail. -/
def pivot (p : Instance α m n) (every : Nat) (t : Tableau α m n) (row : Fin m) (entering : Fin n) :
    Except SingularBasis (Tableau α m n) :=
  let swapped := t.swap row entering
  if every ≤ swapped.updates then
    swapped.refactor p
  else
    .ok (refresh p { swapped with inverse := t.inverse.exchange (t.column p entering) row })

/-- The row that holds column `j`, the last one if there are several. -/
def holder? (t : Tableau α m n) (j : Fin n) : Option (Fin m) :=
  (List.finRange m).reverse.find? fun i => decide (t.basis[i] = j)

/-- All variables at `lam`: basic ones at their values, the others at zero. -/
def primal (t : Tableau α m n) (lam : α) : Vector α n :=
  Vector.ofFn fun j =>
    match t.holder? j with
    | some i => (t.values.get i).value lam
    | none => 0

/-- The multipliers at `lam`. -/
def dual (t : Tableau α m n) (lam : α) : Vector α m :=
  t.duals.value lam

/-- The reduced costs at `lam`. -/
def reduced (t : Tableau α m n) (lam : α) : Vector α n :=
  t.reducedCosts.value lam

/-- Columns not marked as basic, in ascending order. -/
def nonbasic (t : Tableau α m n) : List (Fin n) :=
  (List.finRange n).filter fun j => !t.isBasic[j]

/-! ### What the operations change -/

@[simp] theorem getElem_marks (basis : Vector (Fin n) m) {j : Nat} (hj : j < n) :
    (marks basis)[j] = basis.contains ⟨j, hj⟩ := by
  simp [marks]

@[simp] theorem basis_refresh (p : Instance α m n) (t : Tableau α m n) :
    (t.refresh p).basis = t.basis := rfl

@[simp] theorem isBasic_refresh (p : Instance α m n) (t : Tableau α m n) :
    (t.refresh p).isBasic = t.isBasic := rfl

@[simp] theorem inverse_refresh (p : Instance α m n) (t : Tableau α m n) :
    (t.refresh p).inverse = t.inverse := rfl

@[simp] theorem updates_refresh (p : Instance α m n) (t : Tableau α m n) :
    (t.refresh p).updates = t.updates := rfl

theorem get_reducedCosts_refresh (p : Instance α m n) (t : Tableau α m n) (j : Fin n) :
    (t.refresh p).reducedCosts.get j =
      if t.basis.contains j then ⟨0, 0⟩
      else (p.cost.get j).sub (((t.refresh p).duals.transformRow p.matrix).get j) := by
  simp [refresh]

omit [Scalar α] in
@[simp] theorem inverse_swap (t : Tableau α m n) (row : Fin m) (entering : Fin n) :
    (t.swap row entering).inverse = t.inverse := rfl

omit [Scalar α] in
@[simp] theorem basis_swap (t : Tableau α m n) (row : Fin m) (entering : Fin n) :
    (t.swap row entering).basis = t.basis.set row entering row.isLt := rfl

omit [Scalar α] in
@[simp] theorem updates_swap (t : Tableau α m n) (row : Fin m) (entering : Fin n) :
    (t.swap row entering).updates = t.updates + 1 := rfl

/-- A successful pivot leaves the basis that the bookkeeping alone would. -/
theorem basis_of_pivot_eq_ok {p : Instance α m n} {every : Nat} {t t' : Tableau α m n}
    {row : Fin m} {entering : Fin n} (h : t.pivot p every row entering = .ok t') :
    t'.basis = t.basis.set row entering row.isLt := by
  simp only [pivot] at h
  split at h
  -- The inverse was computed afresh, or it was corrected; both keep the exchanged basis.
  · simp only [refactor, Except.map] at h
    split at h
    · exact nomatch h
    · simp only [Except.ok.injEq] at h
      subst h; rfl
  · simp only [Except.ok.injEq] at h
    subst h; rfl

/-- The tableau written by its size and its count of corrections. -/
def text (t : Tableau α m n) : String :=
  s!"Tableau(rows={m}, cols={n}, updates={t.updates})"

end Tableau

end ParametricLP
