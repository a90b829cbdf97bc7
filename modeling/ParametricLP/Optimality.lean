import ParametricLP.Instance.Basic
import ParametricLP.Path

/-! # Optimality of recorded solutions

A solution together with multipliers can be checked without the solver: the equations hold, no
variable and no reduced cost is negative, and no variable is positive together with its reduced
cost. `Residuals` measures by how much each of the four fails. -/

namespace ParametricLP

variable {α : Type} [Scalar α] {m n : Nat}

/-- A primal and dual solution at one `lam`. -/
structure PathEntry (α : Type) (m n : Nat) where
  lam : α
  x : Vector α n
  y : Vector α m

/-- Largest violations of the four optimality conditions. -/
structure Residuals (α : Type) where
  primal : α
  nonnegativity : α
  dual : α
  complementary : α

/-- Largest part below zero of a vector's entries. -/
def maxNegativePart {k : Nat} (v : Vector α k) : α :=
  v.foldl (fun s x => Scalar.larger s (Scalar.positivePart (-x))) 0

namespace Instance

/-- Cost at `lam` less the price of each column under the multipliers `y`. -/
def reducedCosts (p : Instance α m n) (lam : α) (y : Vector α m) : Vector α n :=
  let cost := p.cost.value lam
  let priced := Mat.vecMul y p.matrix
  Vector.ofFn fun j => cost[j] - priced[j]

/-- By how much an entry of the path violates each optimality condition. -/
def residuals (p : Instance α m n) (e : PathEntry α m n) : Residuals α :=
  let reduced := p.reducedCosts e.lam e.y
  let left := p.matrix.mulVec e.x
  let right := p.rhs.value e.lam
  { primal := Scalar.maxAbs (Vector.ofFn fun i : Fin m => left[i] - right[i])
    nonnegativity := maxNegativePart e.x
    dual := maxNegativePart reduced
    complementary := Scalar.maxAbs (Vector.ofFn fun j : Fin n => e.x[j] * reduced[j]) }

/-- Default tolerance for calling a solution optimal. -/
def optimalityTol : α := 1e-6

/-- Whether no optimality condition is violated by more than `tol`. -/
def isOptimal (p : Instance α m n) (e : PathEntry α m n) (tol : α := optimalityTol) : Bool :=
  let r := p.residuals e
  [r.primal, r.nonnegativity, r.dual, r.complementary].all fun x => decide (x ≤ tol)

/-- Whether every number is smaller than the one before. -/
def decreasing : List α → Bool
  | a :: b :: rest => decide (b - a < 0) && decreasing (b :: rest)
  | _ => true

/-- Whether a path has strictly decreasing `lam` and an optimal solution at each. -/
def verify (p : Instance α m n) (path : List (PathEntry α m n)) (tol : α := optimalityTol) :
    Bool :=
  decreasing (path.map (·.lam)) && path.all fun e => p.isOptimal e tol

/-- An entry of the path from nested lists, if all their entries together have the sizes of the
    problem. -/
def entry? (_ : Instance α m n) (lam : α) (x y : Nested α) : Option (PathEntry α m n) := do
  let x ← (← x.block?).vector? n
  let y ← (← y.block?).vector? m
  return ⟨lam, x, y⟩

end Instance

end ParametricLP
