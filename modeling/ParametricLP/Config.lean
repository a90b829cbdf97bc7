import ParametricLP.Scalar

/-! # Budgets and tolerances of a run

`Options` holds the values as they were asked for, with the usual ones as defaults. `Options.config`
checks them in a fixed order; what it returns carries the checked facts as proof fields. -/

namespace ParametricLP

variable {α : Type} [Scalar α]

/-- Budgets and tolerances as asked for. -/
structure Options (α : Type) [Scalar α] where
  maxPivots : Int := 10000
  threshold : α := 0
  maxBreakpoints : Int := 1000
  tol : α := 1e-9
  maxStalls : Option Int := none
  refactorEvery : Int := 100

/-- Budgets and tolerances of a run. -/
structure Config (α : Type) [Scalar α] where
  /-- Largest number of pivots. -/
  maxPivots : Nat
  /-- The path ends at this `lam`. -/
  threshold : α
  /-- Largest number of recorded breakpoints. -/
  maxBreakpoints : Nat
  /-- Tolerance for feasibility, slopes and pivot elements. -/
  tol : α
  /-- Largest number of consecutive pivots at one `lam`; by default rows plus columns. -/
  maxStalls : Option Nat
  /-- Number of corrections of the basis inverse after which it is computed afresh. -/
  refactorEvery : Nat
  threshold_finite : Scalar.isFinite threshold = true
  threshold_nonneg : ¬ threshold < 0
  maxBreakpoints_pos : 0 < maxBreakpoints
  tol_pos : 0 < tol
  maxStalls_pos : ∀ k ∈ maxStalls, 0 < k
  refactorEvery_pos : 0 < refactorEvery

/-- Why options are refused. -/
inductive ConfigError (α : Type) where
  | maxPivots (got : Int)
  | threshold (got : α)
  | maxBreakpoints (got : Int)
  | tol (got : α)
  | maxStalls (got : Int)
  | refactorEvery (got : Int)
  deriving DecidableEq, Repr

/-- Wording of the refusal, its numbers as `num` writes them. -/
def ConfigError.message (num : α → String) : ConfigError α → String
  | .maxPivots got => s!"max_it must be non-negative, got {got}."
  | .threshold got => s!"lambda_threshold must be finite and >= 0, got {num got}."
  | .maxBreakpoints got => s!"max_breakpoints must be >= 1, got {got}."
  | .tol got => s!"tol must be positive, got {num got}."
  | .maxStalls got => s!"max_degenerate_pivots must be >= 1, got {got}."
  | .refactorEvery got => s!"refactor_every must be >= 1, got {got}."

namespace Options

theorem toNat_pos {k : Int} (h : 0 < k) : 0 < k.toNat := by
  omega

theorem forall_mem_none_pos : ∀ j ∈ (none : Option Nat), 0 < j := by
  simp

/-- The positive number that an integer is, or the given complaint. -/
def positive {ε : Type} (k : Int) (complaint : Int → ε) : Except ε { j : Nat // 0 < j } :=
  if h : 0 < k then .ok ⟨k.toNat, toNat_pos h⟩ else .error (complaint k)

/-- The positive number that an optional integer is, where it is present. -/
def positive? {ε : Type} (complaint : Int → ε) :
    Option Int → Except ε { o : Option Nat // ∀ j ∈ o, 0 < j }
  | none => .ok ⟨none, forall_mem_none_pos⟩
  | some k => (positive k complaint).map fun j => ⟨some j.1, by simp [j.2]⟩

/-- The checked configuration, or the first option that is out of range. -/
def config (o : Options α) : Except (ConfigError α) (Config α) :=
  if o.maxPivots < 0 then
    .error (.maxPivots o.maxPivots)
  else if ht : Scalar.isFinite o.threshold = true ∧ ¬ o.threshold < 0 then do
    let breakpoints ← positive o.maxBreakpoints .maxBreakpoints
    if hp : 0 < o.tol then
      let stalls ← positive? .maxStalls o.maxStalls
      let every ← positive o.refactorEvery .refactorEvery
      return {
        maxPivots := o.maxPivots.toNat
        threshold := o.threshold
        maxBreakpoints := breakpoints.1
        tol := o.tol
        maxStalls := stalls.1
        refactorEvery := every.1
        threshold_finite := ht.1
        threshold_nonneg := ht.2
        maxBreakpoints_pos := breakpoints.2
        tol_pos := hp
        maxStalls_pos := stalls.2
        refactorEvery_pos := every.2 }
    else
      .error (.tol o.tol)
  else
    .error (.threshold o.threshold)

end Options

namespace Config

/-- Cap on consecutive pivots at one `lam` for a problem of the given size. -/
def stallCap (cfg : Config α) (rows cols : Nat) : Nat :=
  cfg.maxStalls.getD (rows + cols)

/-- A breakpoint at or below this `lam` is not crossed any more. -/
def floor (cfg : Config α) : α :=
  cfg.threshold + cfg.tol * Scalar.atLeastOne cfg.threshold

end Config

end ParametricLP
