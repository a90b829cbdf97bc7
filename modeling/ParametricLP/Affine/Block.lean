import ParametricLP.Affine.Vector
import ParametricLP.Block.Access
import ParametricLP.Block.Product

/-! # Blocks of affine functions

An `AffineBlock` is a block whose entries are affine functions of `lam`. What is asked of one
function is asked of each of them; sums and differences stretch their operands, and a linear map
applies to constants and slopes alike. For a block of one extent these are the operations on an
`AffineVector` (`AffineBlock.value_ofVector` and the lemmas after it). -/

namespace ParametricLP

/-- A block of affine functions. -/
abbrev AffineBlock (α : Type) :=
  Block (Affine α)

/-- Why no block of affine functions can be made. -/
inductive AffineBlockError where
  /-- The constants or the slopes are no block. -/
  | block (cause : BlockError)
  /-- Constants and slopes have different shapes. -/
  | unequalShapes (constant slope : List Nat)
  deriving DecidableEq, Repr

/-- Wording for different shapes. -/
def unequalShapesText (constant slope : List Nat) : String :=
  s!"constant and slope must have equal shapes, got {shapeText constant} and {shapeText slope}"

namespace AffineBlock

variable {α : Type} [Scalar α]

/-- The block with the given constants and slopes; slopes left out are zero. -/
def ofNested (constant : Nested α) (slope : Option (Nested α)) :
    Except AffineBlockError (AffineBlock α) := do
  let c ← constant.read.mapError .block
  match slope with
  | none => return c.map (⟨·, 0⟩)
  | some slope =>
    let s ← slope.read.mapError .block
    if h : s.shape = c.shape then
      return ⟨c.shape, c.cells.zipWith Affine.mk (h ▸ s.cells)⟩
    else
      .error (.unequalShapes c.shape s.shape)

/-- The block of one extent that a vector of affine functions is. -/
def ofVector {n : Nat} (v : AffineVector α n) : AffineBlock α :=
  Block.ofVector (Vector.ofFn v.get)

/-- The constants. -/
def constants (v : AffineBlock α) : Block α :=
  v.map (·.constant)

/-- The slopes. -/
def slopes (v : AffineBlock α) : Block α :=
  v.map (·.slope)

/-- The block written by its number of slices. -/
def text (v : AffineBlock α) : Except BlockError String := do
  return s!"ParametricVector(size={← v.size})"

/-- Two blocks combined entry by entry. -/
def combine (f : Affine α → Affine α → Affine α) (v w : AffineBlock α) :
    Except BlockError (AffineBlock α) :=
  match v.zipWith? f w with
  | some u => .ok u
  | none => .error .extents

/-- Entrywise sum. -/
def add (v w : AffineBlock α) : Except BlockError (AffineBlock α) :=
  combine Affine.add v w

/-- Entrywise difference. -/
def sub (v w : AffineBlock α) : Except BlockError (AffineBlock α) :=
  combine Affine.sub v w

/-- Every entry with its sign changed. -/
def neg (v : AffineBlock α) : AffineBlock α :=
  v.map Affine.neg

/-- Every entry times a number. -/
def scale (v : AffineBlock α) (x : α) : AffineBlock α :=
  v.map (·.scale x)

/-- The image under a linear map, applied to constants and slopes alike. -/
def transform (v : AffineBlock α) (A : Block α) : Except BlockError (AffineBlock α) :=
  match A.product? (constants v), A.product? (slopes v) with
  | some c, some s =>
    match c.zipWith? Affine.mk s with
    | some image => .ok image
    | none => .error .extents
  | _, _ => .error .extents

/-- The function at a position of a block of one extent. -/
def get (v : AffineBlock α) (i : Int) : Except BlockError (Affine α) := do
  (← v.slice i).number

/-- Values of all entries at `lam`. -/
def value (v : AffineBlock α) (lam : α) : Block α :=
  v.map (·.value lam)

/-- For each entry, the `lam` below which it is negative, if it rises by more than `tol`. -/
def zeroCrossings (v : AffineBlock α) (tol : α) : Block (Option α) :=
  v.map (·.fallsToZero? tol)

/-- For each entry, whether it is nonnegative for all large `lam`. -/
def nonnegAtInfinity (v : AffineBlock α) (tol slopeTol : α) : Block Bool :=
  v.map (·.nonnegAtInfinity tol slopeTol)

/-! ### Blocks of one extent -/

omit [Scalar α] in
theorem map_ofVector {β : Type} {n : Nat} (v : AffineVector α n) (f : Affine α → β) :
    (ofVector v).map f = Block.ofVector (Vector.ofFn fun i => f (v.get i)) := by
  simp only [ofVector, Block.map, Block.ofVector, Block.mk.injEq, heq_eq_eq, true_and]
  exact Vector.ext fun i hi => by simp [Tensor.map]

omit [Scalar α] in
theorem get_ofVector {n : Nat} (v : AffineVector α n) (i : Fin n) :
    (ofVector v).get (i : Int) = .ok (v.get i) := by
  simp [get, ofVector, Block.slice_ofVector, Block.single, Block.number, bind, Except.bind]

theorem value_ofVector {n : Nat} (v : AffineVector α n) (lam : α) :
    (ofVector v).value lam = Block.ofVector (v.value lam) :=
  map_ofVector v _

theorem zeroCrossings_ofVector {n : Nat} (v : AffineVector α n) (tol : α) :
    (ofVector v).zeroCrossings tol = Block.ofVector (v.zeroCrossings tol) :=
  map_ofVector v _

theorem nonnegAtInfinity_ofVector {n : Nat} (v : AffineVector α n) (tol slopeTol : α) :
    (ofVector v).nonnegAtInfinity tol slopeTol = Block.ofVector (v.nonnegAtInfinity tol slopeTol) :=
  map_ofVector v _

end AffineBlock

end ParametricLP
