import ParametricLP.Block.Access
import ParametricLP.Selection

/-! # Selections on blocks

The selections of `ParametricLP.Selection` on blocks: candidates are the positions of the values,
counted through all extents, and slopes and keys are looked up at the positions that are still tied.
`Selection.positionOfMin` narrows the candidates down in the stages of `Selection.argmin`, and
`Selection.positionOfMax` in those of `Selection.argmax`. -/

namespace ParametricLP.Selection

variable {α : Type} [Scalar α]

/-- Something together with the position that it was found at. -/
abbrev Located (β : Type) := β × Nat

/-- The entries of a block with their positions. -/
def located {β : Type} (b : Block β) : List (Located β) :=
  b.entries.zipIdx

/-- The slices of a block at the positions of some candidates. -/
def lookUp {β γ : Type} (b : Block β) (is : List (Located γ)) : Except BlockError (Block β) :=
  b.take (.ofList (is.map fun i => (i.2 : Int)))

/-- The candidates left by a selection that consults further data: none are consulted for a single
    candidate. -/
def consult {β γ : Type} (b : Block β) (keep : Block β → List Nat → Except BlockError (List Nat))
    (is : List (Located γ)) : Except BlockError (List Nat) :=
  let positions := is.map (·.2)
  if is.length ≤ 1 then .ok positions
  else do keep (← lookUp b is) positions

/-- Of tied positions those with nearly the largest slope. Slopes must be numbers. -/
def keepLargestSlopes (tol : α) : Block α → List Nat → Except BlockError (List Nat)
  | ⟨[_], slopes⟩, positions =>
    .ok ((nearLargest tol (·.1) ((Vector.toList slopes).zip positions)).map (·.2))
  | slopes, _ => .error (if slopes.entries.isEmpty then .extents else .index)

/-- Of tied positions the first one of smallest key. Keys must be numbers. -/
def keepSmallestKey : Block Int → List Nat → Except BlockError (List Nat)
  | ⟨[_], keys⟩, positions =>
    .ok ((smallestKey (·.1) ((Vector.toList keys).zip positions)).map (·.2)).toList
  | keys, positions =>
    let widest := keys.shape.getLast?.getD 0
    .error (if positions.length < widest && !keys.entries.isEmpty then .index else .notSingle)

/-- The position of the value smallest in `value - eps * slope` for a vanishing `eps`, the smallest
    key deciding ties; nothing if there are no values. -/
def positionOfMin (tol : α) (values slopes : Block α) (keys : Block Int) :
    Except BlockError (Option Nat) := do
  if values.entries.isEmpty then
    return none
  let tied := nearSmallest tol (·.1) (located values)
  let tied ← consult slopes (keepLargestSlopes tol) tied
  let tied ← consult keys keepSmallestKey (tied.map fun i => ((), i))
  match tied with
  | [] => .error .index
  | i :: _ => return some i

/-- The position of the largest finite value, the smallest key deciding ties; nothing if there is no
    finite value. -/
def positionOfMax (tol : α) (values : Block α) (keys : Block Int) :
    Except BlockError (Option Nat) := do
  let candidates := finite (·.1) (located values)
  if candidates.isEmpty then
    return none
  let tied := nextToLargest tol (·.1) candidates
  let keys ← lookUp keys tied
  match smallestKey (·.1) (located keys) with
  | none => .error .extents
  | some (_, k) =>
    match tied[k]? with
    | some i => return some i.2
    | none => .error .index

end ParametricLP.Selection
