import ParametricLP.Mat.Basic
import ParametricLP.Tensor

/-! # Rectangular blocks

Problem data arrive as nested lists. `Nested.block?` reads such lists as a `Block`, a tensor whose
extents are part of the value, and refuses ragged ones. A block of one extent is a vector, a block
of two extents is a matrix. `Block.zipWith?` combines two blocks entry by entry after stretching
them; what is selected from a block along its first extent is in `ParametricLP.Block.Access`,
products are in `ParametricLP.Block.Product`. -/

namespace ParametricLP

/-- Lists nested to any depth; a bare entry has depth zero. -/
inductive Nested (α : Type) where
  | number (x : α)
  | list (items : List (Nested α))

/-- A tensor of any extents. -/
structure Block (α : Type) where
  shape : List Nat
  cells : Tensor α shape

/-- Why an operation on blocks is refused. -/
inductive BlockError where
  /-- Nested lists are ragged, or nested too deeply. -/
  | ragged
  /-- A position is out of range, or there is no extent to count along. -/
  | index
  /-- A whole number is too large to be a position. -/
  | width
  /-- Extents do not fit together. -/
  | extents
  /-- A range has a step of zero. -/
  | step
  /-- There are several numbers, or none, where one is needed. -/
  | notSingle
  /-- There is a number where slices are listed. -/
  | noSlices
  deriving DecidableEq, Repr

/-- A shape as a parenthesised list, with a comma after a single extent. -/
def shapeText : List Nat → String
  | [] => "()"
  | [k] => s!"({k},)"
  | ks => "(" ++ ", ".intercalate (ks.map toString) ++ ")"

/-- The largest number of extents that a block read from nested lists has. -/
def mostExtents : Nat := 64

namespace Block

variable {α β γ : Type}

/-- The entries, those of the first slice first. -/
def entries (b : Block α) : List α :=
  b.cells.entries

/-- The block without extents. -/
def single (x : α) : Block α :=
  ⟨[], x⟩

/-- The block of one extent that a vector is. -/
def ofVector {n : Nat} (v : Vector α n) : Block α :=
  ⟨[n], v⟩

/-- The block of one extent with the given entries. -/
def ofList (xs : List α) : Block α :=
  ofVector (⟨xs.toArray, rfl⟩ : Vector α xs.length)

/-- The block of two extents that a matrix is. -/
def ofMat {m n : Nat} (A : Mat α m n) : Block α :=
  ⟨[m, n], A⟩

/-- A function applied to every entry. -/
def map (f : α → β) (b : Block α) : Block β :=
  ⟨b.shape, b.cells.map f⟩

/-- A function that may fail applied to every entry. -/
def mapOption (f : α → Option β) (b : Block α) : Option (Block β) :=
  (b.cells.mapOption f).map (⟨b.shape, ·⟩)

/-- The block stretched to other extents, if they have room for its own. -/
def stretch? (t : List Nat) (b : Block α) : Option (Tensor α t) :=
  b.cells.stretch? t

/-- The entries of two blocks combined one by one, after stretching both to common extents. -/
def zipWith? (f : α → β → γ) (b : Block α) (c : Block β) : Option (Block γ) := do
  let shape ← commonShape? b.shape c.shape
  let x ← b.stretch? shape
  let y ← c.stretch? shape
  return ⟨shape, x.zipWith f y⟩

/-- Blocks of one shape as the slices of one block. -/
def stack? : List (Block α) → Option (Block α)
  | [] => some ⟨[0], (#v[] : Vector α 0)⟩
  | b :: bs => do
    let slices ← bs.mapM fun c => if h : c.shape = b.shape then some (h ▸ c.cells) else none
    return ⟨(b.cells :: slices).length :: b.shape, ⟨(b.cells :: slices).toArray, rfl⟩⟩

/-- The entries as a vector of known length, all extents removed. -/
def vector? (b : Block α) (n : Nat) : Option (Vector α n) :=
  if h : b.entries.length = n then some ⟨b.entries.toArray, by simpa using h⟩ else none

/-! ### Entries -/

@[simp] theorem entries_map (f : α → β) (b : Block α) : (b.map f).entries = b.entries.map f :=
  Tensor.entries_map f b.cells

/-- A block has as many entries as its extents multiply to. -/
theorem length_entries (b : Block α) : b.entries.length = b.shape.foldr (· * ·) 1 :=
  Tensor.length_entries b.cells

theorem vector?_eq_some_iff {b : Block α} {n : Nat} {v : Vector α n} :
    b.vector? n = some v ↔ v.toList = b.entries := by
  simp only [vector?]
  constructor
  · intro h
    split at h
    · simp only [Option.some.injEq] at h
      subst h; simp
    · exact nomatch h
  · intro h
    have hn : b.entries.length = n := by simp [← h]
    simp only [hn, ↓reduceDIte, Option.some.injEq]
    apply Vector.toArray_inj.1
    change b.entries.toArray = v.toArray
    rw [← h, Vector.toList, Array.toArray_toList]

end Block

namespace Nested

variable {α : Type}

mutual

/-- The block that nested lists describe, unless they are ragged or nested too deeply. -/
def block? : Nested α → Option (Block α)
  | .number x => some (.single x)
  | .list items => do
    let b ← Block.stack? (← blocks? items)
    if b.shape.length ≤ mostExtents then return b else none

/-- The blocks that the members of a list describe. -/
def blocks? : List (Nested α) → Option (List (Block α))
  | [] => some []
  | x :: xs => do return (← block? x) :: (← blocks? xs)

end

/-- The block that nested lists describe, or the complaint that there is none. -/
def read (x : Nested α) : Except BlockError (Block α) :=
  match x.block? with
  | some b => .ok b
  | none => .error .ragged

end Nested

/-- A tensor as nested lists. -/
def Tensor.nested {α : Type} : {s : List Nat} → Tensor α s → Nested α
  | [], x => .number x
  | _ :: _, v => .list ((Vector.toList v).map Tensor.nested)

/-- A block as nested lists. -/
def Block.nested {α : Type} (b : Block α) : Nested α :=
  b.cells.nested

end ParametricLP
