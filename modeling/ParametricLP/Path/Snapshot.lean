import ParametricLP.Block
import ParametricLP.Path

/-! # Paths of blocks

A `Snapshot` is a pair of blocks held at one `lam`. `Recorder.appendNested` records nested lists as
a snapshot, and `Block.stackRows?` puts the blocks of a path one above the other. -/

namespace ParametricLP

variable {α : Type} [Scalar α]

/-- A primal and a dual solution of any shape. -/
structure Snapshot (α : Type) where
  primal : Block α
  dual : Block α

/-- Why a snapshot cannot be recorded. -/
inductive SnapshotError (α : Type) where
  | recorder (cause : RecorderError α)
  | block (cause : BlockError)
  deriving DecidableEq, Repr

/-- The recorder with one more snapshot, or nothing if it is full. A full recorder looks at nothing,
    and otherwise `lam` is looked at first. -/
def Recorder.appendNested (r : Recorder α (Snapshot α)) (lam : α) (primal dual : Nested α) :
    Except (SnapshotError α) (Option (Recorder α (Snapshot α))) := do
  let empty : Block α := .ofList []
  match ← (r.append lam ⟨empty, empty⟩).mapError .recorder with
  | none => return none
  | some _ =>
    let x ← primal.read.mapError .block
    let y ← dual.read.mapError .block
    (r.append lam ⟨x, y⟩).mapError .recorder

namespace Block

omit [Scalar α] in
/-- A block with at least two extents: those missing are added in front. -/
def asRows : Block α → Block α
  | ⟨[], x⟩ => ⟨[1, 1], (#v[#v[x]] : Mat α 1 1)⟩
  | ⟨[n], v⟩ => ⟨[1, n], (#v[v] : Mat α 1 n)⟩
  | b => b

/-- The slices of a block along its first extent, if they have the given extents. -/
def slicesOf? (s : List Nat) : Block α → Option (List (Tensor α s))
  | ⟨[], _⟩ => none
  | ⟨_ :: t, v⟩ => if h : t = s then some (h ▸ Vector.toList v) else none

/-- Blocks one above the other, if apart from the first one their extents are equal. -/
def stackRows? (blocks : List (Block α)) : Option (Block α) :=
  match blocks.map asRows with
  | [] => some (ofMat (#v[] : Mat α 0 0))
  | b :: bs => do
    let s := b.shape.tail
    let rows := (← (b :: bs).mapM (slicesOf? s)).flatten
    return ⟨rows.length :: s, ⟨rows.toArray, rfl⟩⟩

end Block

end ParametricLP
