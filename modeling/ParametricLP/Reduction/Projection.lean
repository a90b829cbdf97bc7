import ParametricLP.Block.Access
import ParametricLP.Reduction.Basic

/-! # Coefficients of a solution

A solution of the linear program stands for coefficients, and for an intercept if the problem has
one: the positive parts less the negative parts. Columns are positions, which may be counted from
the end, and blocks of columns that reach beyond the end of the solution are cut off there. -/

namespace ParametricLP

variable {α : Type} [Scalar α] {m n : Nat}

/-- The coefficients of a solution, and its intercept if the problem has one. -/
structure Projection (α : Type) where
  coef : List α
  intercept : Option α

namespace Reduction

/-- What a solution holds at a column. -/
def entryAt {β : Type} (x : List β) (column : Int) : Except BlockError β :=
  match resolve? x.length column with
  | some i => .ok (x.get i)
  | none => .error .index

/-- What a solution holds at the columns of the positive parts, less what it holds at those of the
    negative parts. -/
def differences {β : Type} (r : Reduction α m n) (sub : β → β → β) (x : List β) :
    Except BlockError (List β) :=
  let middle := r.offset + r.features
  let plus := (Slice.between r.offset middle).select? x
  let minus := (Slice.between middle (r.offset + 2 * r.features)).select? x
  match stretchWith? sub (plus.getD []) (minus.getD []) with
  | some differences => .ok differences
  | none => .error .extents

/-- The coefficients that a solution stands for. -/
def project (r : Reduction α m n) (x : List α) : Except BlockError (Projection α) := do
  let coef ← r.differences (· - ·) x
  match r.intercept with
  | none => return ⟨coef, none⟩
  | some (plus, minus) =>
    let up ← entryAt x plus
    let down ← entryAt x minus
    return ⟨coef, some (up - down)⟩

/-- The coefficients that a block stands for, its slices taken for the entries of a solution. Only
    slices that are numbers have an intercept. -/
def projectBlock (r : Reduction α m n) : Block α → Except BlockError (Block α × Option α)
  | ⟨[], _⟩ => .error .index
  | ⟨[_], v⟩ => do
    let projection ← r.project (Vector.toList v)
    return (.ofList projection.coef, projection.intercept)
  | ⟨_ :: k :: s, v⟩ => do
    let slices := Vector.toList v
    let coef ← r.differences (Tensor.zipWith (· - ·)) slices
    match r.intercept with
    | none => return (⟨coef.length :: k :: s, ⟨coef.toArray, rfl⟩⟩, none)
    | some (plus, minus) =>
      let _ ← entryAt slices plus
      let _ ← entryAt slices minus
      .error .notSingle

end Reduction

end ParametricLP
