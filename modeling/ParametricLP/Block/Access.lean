import ParametricLP.Block
import ParametricLP.Position

/-! # Parts of a block

A block with at least one extent is a sequence of slices along its first extent. Positions along it
may be counted from the end. `Block.take` selects slices by a block of positions, whose own extents
take the place of the first one; `Block.range` selects a range of them. `Block.onePerSlice` lists
the entries of a block whose slices hold one each, as those of a vector do. -/

namespace ParametricLP

variable {α : Type}

/-- The block of positions that nested lists describe. -/
def Nested.positions (x : Nested Int) : Except BlockError (Block Int) := do
  let b ← x.read
  if b.entries.all fitsPosition then return b else .error .width

namespace Block

/-- Number of slices along the first extent. -/
def size (b : Block α) : Except BlockError Nat :=
  match b.shape with
  | [] => .error .index
  | n :: _ => .ok n

/-- The only entry of a block without extents. -/
def number : Block α → Except BlockError α
  | ⟨[], x⟩ => .ok x
  | ⟨_ :: _, _⟩ => .error .notSingle

/-- The slice at a position. -/
def slice : Block α → Int → Except BlockError (Block α)
  | ⟨[], _⟩, _ => .error .index
  | ⟨n :: s, v⟩, i =>
    match resolve? n i with
    | some i => .ok ⟨s, Vector.get v i⟩
    | none => .error .index

/-- The entries of a block whose slices hold one entry each. -/
def onePerSlice : Block α → Except BlockError (List α)
  | ⟨[], _⟩ => .error .noSlices
  | ⟨_ :: _, v⟩ => (Vector.toList v).mapM fun t =>
    match Tensor.entries t with
    | [x] => .ok x
    | _ => .error .extents

/-- The slices at given positions. -/
def take : Block α → Block Int → Except BlockError (Block α)
  | ⟨[], _⟩, _ => .error .index
  | ⟨n :: s, v⟩, positions =>
    match positions.mapOption (resolve? n) with
    | some is => .ok ⟨is.shape ++ s, (is.cells.map (Vector.get v)).join⟩
    | none => .error .index

/-- The slices in a range. -/
def range : Block α → Slice → Except BlockError (Block α)
  | ⟨[], _⟩, _ => .error .index
  | ⟨n :: s, v⟩, r =>
    match r.indices? n with
    | some is => .ok ⟨is.length :: s, ⟨(is.map (Vector.get v)).toArray, by simp⟩⟩
    | none => .error .step

/-- The block with the slice at a position replaced by one of the same extents. -/
def setSlice : Block α → Int → Block α → Except BlockError (Block α)
  | ⟨[], _⟩, _, _ => .error .index
  | ⟨n :: s, v⟩, i, b =>
    match resolve? n i with
    | some i => if h : b.shape = s then .ok ⟨n :: s, Vector.set v i (h ▸ b.cells) i.isLt⟩
      else .error .extents
    | none => .error .index

/-! ### Slices of a mapped block -/

/-- A slice of a block mapped entry by entry is the slice of the block, mapped. -/
theorem slice_map {β : Type} (f : α → β) (b : Block α) (i : Int) :
    (b.map f).slice i = (b.slice i).map (Block.map f) := by
  obtain ⟨_ | ⟨n, s⟩, x⟩ := b
  · rfl
  · change slice ⟨n :: s, Vector.map (Tensor.map f) x⟩ i = _
    simp only [slice]
    cases resolve? n i with
    | none => rfl
    | some k => simp [Except.map, Block.map, Vector.get]

/-- A block is read as one entry where it is that entry alone. -/
theorem number_eq_ok_iff {b : Block α} {x : α} : b.number = .ok x ↔ b = single x := by
  obtain ⟨_ | ⟨n, s⟩, y⟩ := b
  · simp [number, single]
  · simp [number, single]

/-! ### Slices of a vector -/

/-- A block of one extent has an entry at every position in range, counted from either end. -/
theorem exists_slice_eq_single {b : Block α} {n : Nat} {i : Int} (hshape : b.shape = [n])
    (hlow : -n ≤ i) (hhigh : i < n) : ∃ x, b.slice i = .ok (single x) := by
  obtain ⟨shape, v⟩ := b
  obtain rfl : shape = [n] := hshape
  cases h : resolve? n i with
  | none =>
    have hout := resolve?_eq_none_iff.1 h
    omega
  | some k => exact ⟨Vector.get v k, by simp only [slice, h, single]⟩

/-- A block of positions has slices exactly where a vector has entries. -/
theorem slice_ofVector {n : Nat} (v : Vector α n) (i : Fin n) :
    (ofVector v).slice (i : Int) = .ok (single v[i]) := by
  simp [slice, ofVector, single, resolve?_natCast i.isLt, Vector.get]

theorem onePerSlice_ofVector {n : Nat} (v : Vector α n) :
    (ofVector v).onePerSlice = .ok v.toList := by
  simp only [onePerSlice, ofVector]
  induction v.toList with
  | nil => rfl
  | cons x xs ih => rw [List.mapM_cons, ih]; rfl

end Block

end ParametricLP
