import ParametricLP.Config

/-! # Recorded paths

A path is a list of marks with strictly decreasing `lam`, each with something that was held there: a
solution, or a tableau. A `Recorder` collects marks up to a capacity. It refuses silently once it is
full and complains about a `lam` that does not lie below the last one. -/

namespace ParametricLP

variable {α π : Type} [Scalar α]

/-- What was held at one `lam`. -/
structure Mark (α π : Type) where
  lam : α
  held : π

/-- Collects marks up to a fixed number. -/
structure Recorder (α π : Type) where
  capacity : Nat
  marks : Array (Mark α π)
  capacity_pos : 0 < capacity
  size_le : marks.size ≤ capacity

/-- Why a recorder cannot be made or a mark cannot be appended. -/
inductive RecorderError (α : Type) where
  /-- The capacity is not positive. -/
  | capacity (got : Int)
  /-- The new `lam` does not lie below the last one; before the first mark, below infinity. -/
  | order (got : α) (last : Option α)
  deriving DecidableEq, Repr

/-- Wording of the complaint, its numbers as `num` writes them. -/
def RecorderError.message (num : α → String) : RecorderError α → String
  | .capacity got => s!"capacity must be >= 1, got {got}."
  | .order got last =>
    let after := (last.map num).getD "inf"
    s!"breakpoints must strictly decrease, got {num got} after {after}"

/-- A number below an upper bound, or below infinity where there is no bound. -/
def isBelow (lam : α) : Option α → Bool
  | some bound => decide (lam < bound)
  | none => Scalar.isFinite lam || decide (lam < 0)

namespace Recorder

/-- A recorder without marks. -/
def ofCapacity (capacity : Nat) (h : 0 < capacity) : Recorder α π :=
  ⟨capacity, #[], h, by simp⟩

/-- A recorder without marks, if the capacity is positive. -/
def ofCapacity? (capacity : Int) : Except (RecorderError α) (Recorder α π) :=
  if h : 0 < capacity then .ok (ofCapacity capacity.toNat (Options.toNat_pos h))
  else .error (.capacity capacity)

/-- Number of marks. -/
def size (r : Recorder α π) : Nat :=
  r.marks.size

/-- Whether no further mark is taken. -/
def isFull (r : Recorder α π) : Bool :=
  decide (r.capacity ≤ r.size)

/-- The `lam` of the last mark. -/
def last? (r : Recorder α π) : Option α :=
  r.marks.back?.map (·.lam)

/-- The recorder with one more mark, or nothing if it is full. -/
def append (r : Recorder α π) (lam : α) (held : π) :
    Except (RecorderError α) (Option (Recorder α π)) :=
  if h : r.capacity ≤ r.size then
    .ok none
  else if isBelow lam r.last? then
    .ok (some ⟨r.capacity, r.marks.push ⟨lam, held⟩, r.capacity_pos, by
      simp only [size, Array.size_push] at *; omega⟩)
  else
    .error (.order lam r.last?)

/-! ### Appending -/

/-- A mark is dropped exactly by a full recorder. -/
theorem append_eq_ok_none_iff {r : Recorder α π} {lam : α} {held : π} :
    r.append lam held = .ok none ↔ r.isFull = true := by
  simp only [append, isFull, decide_eq_true_eq]
  split
  · simp_all
  · split <;> simp_all

/-- A mark that is taken becomes the last one, and lies below the one before. -/
theorem append_eq_ok_some {r r' : Recorder α π} {lam : α} {held : π}
    (h : r.append lam held = .ok (some r')) :
    r'.marks = r.marks.push ⟨lam, held⟩ ∧ r'.capacity = r.capacity ∧
      isBelow lam r.last? = true := by
  simp only [append] at h
  split at h
  · simp at h
  · split at h
    · simp only [Except.ok.injEq, Option.some.injEq] at h
      subst h
      exact ⟨rfl, rfl, by assumption⟩
    · exact nomatch h

/-- The last `lam` after a mark has been taken. -/
theorem last?_of_append {r r' : Recorder α π} {lam : α} {held : π}
    (h : r.append lam held = .ok (some r')) : r'.last? = some lam := by
  simp [last?, (append_eq_ok_some h).1]

/-- The recorder written by its fill and its capacity. -/
def text (r : Recorder α π) : String :=
  s!"PathRecorder({r.size}/{r.capacity})"

end Recorder

/-- A path written by its size and the first and last `lam`, which `num` writes. -/
def pathText (num : α → String) (lams : List α) : String :=
  match lams with
  | [] => "Path(empty)"
  | first :: rest =>
    let count := rest.length + 1
    let final := rest.getLast?.getD first
    s!"Path(breakpoints={count}, lam=[{num first} .. {num final}])"

end ParametricLP
