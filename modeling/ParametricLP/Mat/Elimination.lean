import ParametricLP.Mat.Basic

/-! # Gaussian elimination with partial pivoting

`Mat.solve?` solves `B X = R` for all columns of `R` together. It recurses on the size of `B`: the
row with the largest first entry is taken out, its multiples clear the first column of the others,
the smaller system that remains is solved, and the first row of the solution follows from the row
taken out. A largest first entry of zero ends the attempt: `B` has no inverse. -/

namespace ParametricLP

variable {α : Type} [Scalar α]

namespace Mat

/-- The row whose first entry is largest in absolute value, the first such row on a tie. -/
def pivotRow {m n : Nat} (B : Mat α (m + 1) (n + 1)) : Fin (m + 1) :=
  Fin.foldl m
    (fun best i => if Scalar.abs B[best][0] < Scalar.abs B[i.succ][0] then i.succ else best) 0

/-- The rows other than `p`: row `0` stands in for it where `p` is not itself row `0`. -/
def dropRow {m n : Nat} (B : Mat α (m + 1) n) (p : Fin (m + 1)) : Mat α m n :=
  Vector.ofFn fun i => if i.succ = p then B[0] else B[i.succ]

/-- A vector without its first entry. -/
def rest {n : Nat} (v : Vector α (n + 1)) : Vector α n :=
  Vector.ofFn fun j => v[j.succ]

/-- The vector `v - l * u`. -/
def subMultiple {n : Nat} (v : Vector α n) (l : α) (u : Vector α n) : Vector α n :=
  Vector.ofFn fun j => v[j] - l * u[j]

/-- The solution `X` of `B X = R`, or nothing where a pivot is exactly zero. -/
def solve? {k : Nat} : {m : Nat} → Mat α m m → Mat α m k → Option (Mat α m k)
  | 0, _, _ => some #v[]
  | m + 1, B, R =>
    let p := pivotRow B
    let pivot := B[p][0]
    if Scalar.isZero pivot then
      none
    else
      -- The row taken out, and what remains of the system once it is gone.
      let top := rest B[p]
      let target := R[p]
      let others := dropRow B p
      let otherTargets := dropRow R p
      -- Its multiples clear the first column of the others.
      let multipliers : Vector α m := Vector.ofFn fun i => others[i][0] / pivot
      let minor := Vector.ofFn fun i => subMultiple (rest others[i]) multipliers[i] top
      let minorTargets := Vector.ofFn fun i => subMultiple otherTargets[i] multipliers[i] target
      (solve? minor minorTargets).map fun below =>
        -- Back substitution into the row taken out.
        let first : Vector α k := Vector.ofFn fun j =>
          (target[j] - Scalar.sum fun i : Fin m => top[i] * below[i][j]) / pivot
        Vector.ofFn fun i => Fin.cases first (fun i => below[i]) i

end Mat

end ParametricLP
