import ParametricLP.Decimal.Basic
import ParametricLP.Instance.Basic

/-! # Reading a problem from data of unknown shape

`ProblemData` holds nested lists of any shape. `ProblemData.problem` checks them part by part, in
the order matrix, right-hand side, cost, basis, and reports the first fault: within a part first its
shape, then its entries, then its size. -/

namespace ParametricLP

variable {α : Type} [Scalar α]

/-- An entry of a starting basis as it was given. -/
inductive ColumnLabel where
  /-- A whole number. -/
  | whole (j : Int)
  /-- A number with a fraction, which is cut off towards zero. -/
  | cut (j : Int)
  | undefined
  | infinite
  deriving DecidableEq, Repr

/-- Unchecked data of a problem. -/
structure ProblemData (α : Type) where
  matrix : Nested α
  rhs : Nested α
  rhsSlope : Nested α
  cost : Nested α
  costSlope : Nested α
  basis : Nested ColumnLabel

/-- A problem of any size. -/
structure Problem (α : Type) where
  rows : Nat
  cols : Nat
  inst : Instance α rows cols

namespace Nested

/-- The block that nested lists describe, or the complaint that they are ragged. -/
def block {β : Type} (x : Nested β) : Except ProblemError (Block β) :=
  x.read.mapError fun _ => .ragged

/-- The entries of a part of the problem, all nesting removed, if they are finite and of the number
    expected. -/
def part (x : Nested α) (part : Part) (size : Nat) : Except ProblemError (Vector α size) := do
  let b ← x.block
  if !b.entries.all Scalar.isFinite then
    .error (.notFinite part)
  else
    match b.vector? size with
    | some v => .ok v
    | none => .error (.wrongLength part size b.entries.length)

end Nested

namespace ColumnLabel

/-- The label of a double. -/
def ofDouble : Double → ColumnLabel
  | .undefined => .undefined
  | .infinite _ => .infinite
  | .finite negative m e => .cut (Double.wholePart negative m e)

/-- Whether a label is a whole number of more than 64 bits. -/
def isLong : ColumnLabel → Bool
  | .whole j => decide (j < -0x8000000000000000 ∨ 0x10000000000000000 ≤ j)
  | _ => false

/-- Whether a label is a whole number that needs 64 bits without a sign. -/
def isUnsigned : ColumnLabel → Bool
  | .whole j => decide (0x8000000000000000 ≤ j ∧ j < 0x10000000000000000)
  | _ => false

/-- Labels brought to one type of number: where fractions occur, or whole numbers with and without a
    sign that need all 64 bits, each label is kept as a double. Longer whole numbers keep all their
    digits, and so do the labels beside them. -/
def unified (labels : List ColumnLabel) : List ColumnLabel :=
  let mixed := labels.any isUnsigned && !labels.all isUnsigned
  let fractions := labels.any fun
    | .whole _ => false
    | _ => true
  if !labels.any isLong && (mixed || fractions) then
    labels.map fun
      | .whole j => .cut (Double.nearestWhole j)
      | label => label
  else
    labels

/-- The column index that a label stands for. -/
def index : ColumnLabel → Except ProblemError Int
  | .whole j => .ok j
  | .cut j => .ok j
  | .undefined => .error .undefinedColumn
  | .infinite => .error .infiniteColumn

end ColumnLabel

/-- The columns that given indices name: as many as there are rows, distinct, and in range. -/
def columnsOfIndices (m n : Nat) (indices : List Int) : Except ProblemError (Vector (Fin n) m) :=
  if h : indices.length = m then
    if !decide indices.Nodup then
      .error .basisRepeats
    else if hr : ∀ j ∈ indices, 0 ≤ j ∧ j < n then
      .ok ⟨(indices.attach.map fun j =>
        ⟨j.1.toNat, by have := hr j.1 j.2; omega⟩).toArray, by simpa using h⟩
    else
      .error (.basisOutOfRange n)
  else
    .error (.basisSize m indices.length)

/-- The problem that the data describe, or their first fault. -/
def ProblemData.problem (d : ProblemData α) : Except ProblemError (Problem α) := do
  match ← d.matrix.block with
  | ⟨[m, n], matrix⟩ =>
    Instance.checkMatrix (m := m) (n := n) matrix
    let b ← d.rhs.part .rhs m
    let bBar ← d.rhsSlope.part .rhsSlope m
    let c ← d.cost.part .cost n
    let cBar ← d.costSlope.part .costSlope n
    let labels ← d.basis.block
    let indices ← (ColumnLabel.unified labels.entries).mapM ColumnLabel.index
    let basis ← columnsOfIndices m n indices
    let inst ← Instance.ofBasis? matrix ⟨b, bBar⟩ ⟨c, cBar⟩ basis
    return ⟨m, n, inst⟩
  | ⟨shape, _⟩ => .error (.notTwoDimensional shape)

end ParametricLP
