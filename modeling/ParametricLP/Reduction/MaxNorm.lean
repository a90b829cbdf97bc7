import ParametricLP.Log.Record
import ParametricLP.Reduction.Basic

/-! # Least absolute coefficients under a bound on the largest residual

The problem is to minimise the sum of the absolute coefficients subject to `|r - K beta| ≤ lam` in
every entry. With slacks for `K beta ≤ lam + r` and `-K beta ≤ lam - r` the columns are

`beta⁺ (d) | beta⁻ (d) | w⁺ (m) | w⁻ (m)`,

and only the right-hand side depends on `lam`. The slacks are a basis for every `lam` at least as
large as each entry of `r`. The Dantzig selector takes `K = Xᵀ X` and `r = Xᵀ y`, compressed sensing
takes `K = X` and `r = y`. -/

namespace ParametricLP.MaxNorm

variable {α : Type} [Scalar α] {m n d : Nat}

/-- Number of columns of the program. -/
abbrev width (m d : Nat) : Nat :=
  d + d + (m + m)

/-- The constraint matrix. -/
def matrix (K : Mat α m d) : Mat α (m + m) (width m d) :=
  let zero : Mat α m m := Mat.ofFn fun _ _ => 0
  (K.signSplit.beside ((Mat.identity m).beside zero)).above
    (K.signSplit.neg.beside (zero.beside (Mat.identity m)))

/-- Every coefficient counts with its absolute value. -/
def cost (m d : Nat) : AffineVector α (width m d) :=
  .fixed (Vector.replicate (d + d) (1 : α) ++ Vector.replicate (m + m) (0 : α))

/-- The bounds `lam + r` and `lam - r`. -/
def rhs (r : Vector α m) : AffineVector α (m + m) :=
  ⟨r ++ r.map (-·), Vector.replicate (m + m) (1 : α)⟩

/-- The starting basis: all slacks. -/
def start (m d : Nat) : Vector (Fin (width m d)) (m + m) :=
  Vector.ofFn fun i => Fin.natAdd (d + d) i

/-- The reduction to a linear program, under the given name. -/
def reduction (K : Mat α m d) (r : Vector α m) (name : String) :
    Except (ReductionError α) (Reduction α (m + m) (width m d)) := do
  let inst ← (Instance.ofParts? (matrix K) (rhs r) (cost m d) (start m d)).mapError .problem
  return { inst, features := d, name }

/-- The reduction of nested lists, of which the second may hold any number of entries. -/
def ofNested? (K r : Nested α) (name : String) : Except (ReductionError α) (AnyReduction α) := do
  let K ← K.block.mapError .problem
  let r ← r.block.mapError .problem
  match K, r.shape with
  | _, [] => .error (.problem .ragged)
  | ⟨[m, d], matrix⟩, _ =>
    match r.vector? m with
    | some r => return ⟨_, _, ← reduction (m := m) (d := d) matrix r name⟩
    | none =>
      (Instance.checkMatrix (MaxNorm.matrix (m := m) (d := d) matrix)).mapError .problem
      let cause := if r.entries.all Scalar.isFinite
        then ProblemError.wrongLength .rhs (m + m) (2 * r.entries.length)
        else .notFinite .rhs
      .error (.problem cause)
  | _, _ => .error (.problem .ragged)

/-- The Dantzig selector of a design. -/
def dantzig (D : Design α n d) : Except (ReductionError α) (Reduction α (d + d) (width d d)) :=
  reduction (D.matrix.transpose.mul D.matrix) (Mat.vecMul D.response D.matrix) "dantzig"

/-- Compressed sensing of a design. -/
def compressedSensing (D : Design α n d) :
    Except (ReductionError α) (Reduction α (n + n) (width n d)) :=
  reduction D.matrix D.response "compressed_sensing"

/-- What is logged about a program of the given name and size. -/
def record (name : String) (rows cols : Nat) : Log.Record :=
  ⟨Log.Source.maxNorm.logger, Log.debug, s!"{name} LP: {rows} x {cols}"⟩

end ParametricLP.MaxNorm
