import ParametricLP.Vector

/-! # Numbers the solver computes with

Everything in the library is written for an arbitrary type of numbers with the four operations, an
order that can be decided and a test for being finite. Two instances matter: `Float`, on which the
program runs, and `Rat`, on which its laws are stated.

The order is not assumed to be total, because a `Float` may be no number at all. Comparisons are
therefore written out one by one, and `larger` and `smaller` hand an incomparable operand on to
their result instead of dropping it. -/

namespace ParametricLP

/-- Numbers with arithmetic, a decidable order, decimal literals and a test for being finite. -/
class Scalar (α : Type) extends Zero α, One α, Add α, Sub α, Mul α, Div α, Neg α, LT α, LE α,
    NatCast α, OfScientific α where
  decidableLT : DecidableLT α
  decidableLE : DecidableLE α
  /-- Whether a number is an ordinary one: neither infinite nor undefined. -/
  isFinite : α → Bool

attribute [reducible, instance] Scalar.decidableLT Scalar.decidableLE

instance : Scalar Float where
  zero := 0
  one := 1
  natCast := Float.ofNat
  decidableLT := inferInstance
  decidableLE := inferInstance
  isFinite := Float.isFinite

instance : Scalar Rat where
  zero := 0
  one := 1
  decidableLT := inferInstance
  decidableLE := inferInstance
  isFinite _ := true

namespace Scalar

variable {α : Type} [Scalar α]

/-- Whether a number equals zero, decided by the order. -/
def isZero (x : α) : Bool :=
  decide (x ≤ 0) && decide (0 ≤ x)

/-- Absolute value. -/
def abs (x : α) : α :=
  if x < 0 then -x else x

/-- The larger of two numbers; of two incomparable ones, their sum, which is undefined as well. -/
def larger (x y : α) : α :=
  if x ≤ y then y else if y ≤ x then x else x + y

/-- The smaller of two numbers; of two incomparable ones, their sum, which is undefined as well. -/
def smaller (x y : α) : α :=
  if x ≤ y then x else if y ≤ x then y else x + y

/-- A scale for relative tolerances: the number itself where it exceeds one, otherwise one. -/
def atLeastOne (x : α) : α :=
  if 1 < x then x else 1

/-- The part of a number above zero. -/
def positivePart (x : α) : α :=
  larger x 0

/-- Sum of a finite family, taken from the first member to the last. -/
def sum {n : Nat} (f : Fin n → α) : α :=
  Fin.foldl n (fun s i => s + f i) 0

/-- Largest absolute value in a vector, zero for the empty one. -/
def maxAbs {n : Nat} (v : Vector α n) : α :=
  v.foldl (fun s x => larger s (abs x)) 0

/-- A tolerance relative to the largest absolute value in sight, and absolute below one. -/
def tolerance {n : Nat} (tol : α) (v : Vector α n) : α :=
  tol * atLeastOne (maxAbs v)

end Scalar

end ParametricLP
