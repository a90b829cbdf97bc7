import ParametricLP.Selection
import ParametricLP.Tableau

/-! # The next breakpoint

As `lam` decreases, a basis stops being optimal where a basic value or the reduced cost of a column
outside the basis falls to zero. `Tableau.nextBreakpoint` selects the first such place, and the two
ratio tests select what to exchange there: the entering column when a basic value crosses, the row
to leave when a reduced cost does. -/

namespace ParametricLP

variable {α : Type} [Scalar α] {m n : Nat}

/-- What falls to zero at a breakpoint. -/
inductive Crossing (m n : Nat) where
  /-- The basic value of a row. -/
  | primal (row : Fin m)
  /-- The reduced cost of a column. -/
  | dual (column : Fin n)
  deriving DecidableEq, Repr

/-- A place on the path where a basis stops being optimal. -/
structure Breakpoint (α : Type) (m n : Nat) where
  lam : α
  crossing : Crossing m n

namespace Breakpoint

/-- The breakpoint moved down to a bound that it lies above. -/
def clip (bound : Option α) (b : Breakpoint α m n) : Breakpoint α m n :=
  match bound with
  | some top => if top < b.lam then { b with lam := top } else b
  | none => b

end Breakpoint

namespace Tableau

/-- The column that a crossing is about: that of the variable held by the row, or the column itself.
    -/
def crossingColumn (t : Tableau α m n) : Crossing m n → Fin n
  | .primal row => t.basis[row]
  | .dual column => column

/-- Where each row's basic value falls to zero, if it rises with `lam`. -/
def rowCrossings (tol : α) (t : Tableau α m n) : List (Breakpoint α m n) :=
  let slopeTol := Scalar.tolerance tol t.values.slope
  (List.finRange m).filterMap fun i =>
    ((t.values.get i).fallsToZero? slopeTol).map (⟨·, .primal i⟩)

/-- Where each nonbasic column's reduced cost falls to zero, if it rises with `lam`. -/
def columnCrossings (tol : α) (t : Tableau α m n) : List (Breakpoint α m n) :=
  let slopeTol := Scalar.tolerance tol t.reducedCosts.slope
  t.nonbasic.filterMap fun j =>
    ((t.reducedCosts.get j).fallsToZero? slopeTol).map (⟨·, .dual j⟩)

/-- The largest `lam` at which something falls to zero, ties going to the smallest column. -/
def nextBreakpoint (tol : α) (t : Tableau α m n) : Choice (Breakpoint α m n) :=
  Selection.argmax tol (·.lam) (fun b => t.crossingColumn b.crossing)
    (t.rowCrossings tol ++ t.columnCrossings tol)

/-- Columns that can enter in a given row: not basic, with a clearly negative entry in it. -/
def enteringCandidates (tol : α) (t : Tableau α m n) (entries : Vector α n) : List (Fin n) :=
  let bound := -Scalar.tolerance tol entries
  t.nonbasic.filter fun j => decide (entries[j] < bound)

/-- The column that enters where the basic value of `row` crosses zero at `lam`: the one whose
    reduced cost gives the smallest ratio, and stays nonnegative just below `lam`. -/
def entering (p : Instance α m n) (tol : α) (t : Tableau α m n) (lam : α) (row : Fin m) :
    Choice (Fin n) :=
  let entries := t.row p row
  Selection.argmin tol
    (fun j => Scalar.positivePart ((t.reducedCosts.get j).value lam) / -entries[j])
    (fun j => (t.reducedCosts.get j).slope / -entries[j])
    id
    (t.enteringCandidates tol entries)

/-- Rows that can leave along a direction: those whose value clearly decreases. -/
def leavingCandidates (tol : α) (direction : Vector α m) : List (Fin m) :=
  let bound := Scalar.tolerance tol direction
  (List.finRange m).filter fun i => decide (bound < direction[i])

/-- The row that is left where the reduced cost of `column` crosses zero at `lam`: the one whose
    basic value gives the smallest ratio, and stays nonnegative just below `lam`. -/
def leaving (p : Instance α m n) (tol : α) (t : Tableau α m n) (lam : α) (column : Fin n) :
    Choice (Fin m) :=
  let direction := t.column p column
  Selection.argmin tol
    (fun i => Scalar.positivePart ((t.values.get i).value lam) / direction[i])
    (fun i => (t.values.get i).slope / direction[i])
    (fun i => t.basis[i])
    (leavingCandidates tol direction)

end Tableau

end ParametricLP
