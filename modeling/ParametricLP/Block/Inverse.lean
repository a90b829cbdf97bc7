import ParametricLP.Block.Access
import ParametricLP.Block.Product
import ParametricLP.Mat.Inverse

/-! # Inverses of blocks

The operations of `ParametricLP.Mat.Inverse` on blocks of any shape. `Block.inverse` refuses
whatever is not a square matrix; which refusal it is depends on the shape. `Block.exchange` corrects
an inverse: by `Mat.exchange` where a matrix and a vector fit, otherwise after stretching. -/

namespace ParametricLP

variable {α : Type} [Scalar α]

/-- Why an operation on the inverse of a block is refused. -/
inductive InverseError where
  /-- The operands do not fit. -/
  | block (cause : BlockError)
  /-- The matrix has no usable inverse. -/
  | singular (cause : SingularBasis)
  deriving DecidableEq, Repr

namespace Block

/-- The refusal of a stack of matrices of `k` slices: the first of its matrices not being square,
    their extents not being `k`, one of them being singular, its being a stack at all. -/
def stackRefusal (k : Nat) {m n : Nat} {s : List Nat} (A : Tensor α (m :: n :: s)) : InverseError :=
  if h : stackRows m n s = stackCols m n s then
    if stackRows m n s ≠ k then
      .block .extents
    else if A.matrices.entries.any fun M =>
        (Mat.solve? (h ▸ M : Mat α (stackCols m n s) (stackCols m n s))
          (Mat.identity (stackCols m n s))).isNone then
      .singular .zeroPivot
    else
      .block .extents
  else
    .singular .notSquare

/-- The inverse of a square matrix, unless it is singular or too badly conditioned. -/
def inverse (tol : α) : Block α → Except InverseError (Block α)
  | ⟨[], _⟩ => .error (.block .index)
  | ⟨[_], _⟩ => .error (.singular .notAMatrix)
  | ⟨[m, n], A⟩ =>
    if h : m = n then
      match Mat.inverse? (h ▸ A : Mat α n n) tol with
      | .ok inverse => .ok (ofMat inverse)
      | .error cause => .error (.singular cause)
    else
      .error (.singular .notSquare)
  | ⟨k :: _ :: _ :: _, A⟩ => .error (stackRefusal k A)

/-- Extents of one in front removed, as long as more than `rank` extents are left. -/
def dropOnes (rank : Nat) : {s : List Nat} → Tensor α s → Block α
  | [], x => ⟨[], x⟩
  | n :: s, v =>
    if h : n = 1 ∧ rank ≤ s.length then dropOnes rank (Vector.get v ⟨0, by omega⟩) else ⟨n :: s, v⟩

/-- The row of a block of at least two extents at a position. -/
def rowAt (b : Block α) (i : Int) : Except BlockError (Block α) :=
  if b.shape.length < 2 then .error .index else b.slice i

/-- Two blocks combined entry by entry, or the complaint that their extents do not fit. -/
def combined (f : α → α → α) (b c : Block α) : Except BlockError (Block α) :=
  match b.zipWith? f c with
  | some d => .ok d
  | none => .error .extents

/-- The block of the products of all pairs of entries of two blocks. -/
def outer (b c : Block α) : Block α :=
  ofMat (Mat.ofFn fun (i : Fin b.entries.length) (j : Fin c.entries.length) =>
    b.entries[i] * c.entries[j])

/-- The correction of an inverse by a direction of other extents: the row at the position divided by
    the slice of the direction there, and multiples of it subtracted from the block as a whole. -/
def exchangeStretched (inverse direction : Block α) (row : Int) : Except BlockError (Block α) := do
  let pivot ← direction.slice row
  let old ← inverse.rowAt row
  let pivotRow ← old.combined (· / ·) pivot
  match (direction.outer pivotRow).stretch? inverse.shape with
  | none => .error .extents
  | some change =>
    let corrected : Block α := ⟨inverse.shape, inverse.cells.zipWith (· - ·) change⟩
    corrected.setSlice row (dropOnes old.shape.length pivotRow.cells)

/-- The correction of an inverse for a pivot in a row, which may be counted from the end. -/
def exchange : (inverse direction : Block α) → (row : Int) → Except BlockError (Block α)
  | ⟨[m, n], A⟩, ⟨[k], v⟩, row =>
    if h : k = m then
      match resolve? m row with
      | some i => .ok (ofMat (Mat.exchange A (h ▸ v) i))
      | none => .error .index
    else
      exchangeStretched ⟨[m, n], A⟩ ⟨[k], v⟩ row
  | inverse, direction, row => exchangeStretched inverse direction row

end Block

end ParametricLP
