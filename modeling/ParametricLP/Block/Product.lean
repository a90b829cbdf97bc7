import ParametricLP.Block

/-! # Products of blocks

Blocks of one extent multiply as vectors and blocks of two extents as matrices. A block of more
extents is a stack of matrices (`Tensor.matrices`): stacks are stretched to common extents and
multiplied matrix by matrix. A block without extents has no product. -/

namespace ParametricLP

variable {α : Type}

/-- The extents before the last two. -/
def outerShape : Nat → Nat → List Nat → List Nat
  | _, _, [] => []
  | m, n, k :: s => m :: outerShape n k s

/-- The last two extents. -/
def lastTwo : Nat → Nat → List Nat → Nat × Nat
  | m, n, [] => (m, n)
  | _, n, k :: s => lastTwo n k s

/-- The number of rows of each matrix in a stack. -/
abbrev stackRows (m n : Nat) (s : List Nat) : Nat :=
  (lastTwo m n s).1

/-- The number of columns of each matrix in a stack. -/
abbrev stackCols (m n : Nat) (s : List Nat) : Nat :=
  (lastTwo m n s).2

/-- A tensor of at least two extents as a stack of matrices. -/
def Tensor.matrices : {m n : Nat} → {s : List Nat} → Tensor α (m :: n :: s) →
    Tensor (Mat α (stackRows m n s) (stackCols m n s)) (outerShape m n s)
  | _, _, [], A => A
  | _, _, _ :: _, v => Vector.map Tensor.matrices v

namespace Block

/-- A block of tensors of equal extents as one block. -/
def join {s : List Nat} (b : Block (Tensor α s)) : Block α :=
  ⟨b.shape ++ s, b.cells.join⟩

variable [Scalar α]

/-- The product of two blocks, if their extents fit. -/
def product? : Block α → Block α → Option (Block α)
  | ⟨[n], u⟩, ⟨[k], v⟩ =>
    if h : n = k then some (single (dot u (h ▸ v))) else none
  | ⟨[n], u⟩, ⟨k :: l :: s, B⟩ =>
    if h : n = stackRows k l s then
      some (join (s := [stackCols k l s])
        ⟨outerShape k l s, B.matrices.map fun M => Mat.vecMul (h ▸ u) M⟩)
    else
      none
  | ⟨m :: n :: s, A⟩, ⟨[k], v⟩ =>
    if h : k = stackCols m n s then
      some (join (s := [stackRows m n s])
        ⟨outerShape m n s, A.matrices.map fun M => M.mulVec (h ▸ v)⟩)
    else
      none
  | ⟨m :: n :: s, A⟩, ⟨k :: l :: t, B⟩ =>
    if h : stackCols m n s = stackRows k l t then do
      let products ← zipWith?
        (fun M N => (h ▸ M : Mat α (stackRows m n s) (stackRows k l t)).mul N)
        ⟨outerShape m n s, A.matrices⟩ ⟨outerShape k l t, B.matrices⟩
      return join (s := [stackRows m n s, stackCols k l t]) products
    else
      none
  | ⟨[], _⟩, _ | _, ⟨[], _⟩ => none

/-- The product of a matrix and a vector is the one of linear algebra. -/
theorem product?_ofMat_ofVector {m n : Nat} (A : Mat α m n) (v : Vector α n) :
    (ofMat A).product? (ofVector v) = some (ofVector (A.mulVec v)) := by
  simp only [product?, ofMat, ofVector, stackCols, lastTwo, ↓reduceDIte, Option.some.injEq]
  rfl

end Block

end ParametricLP
