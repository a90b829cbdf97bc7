import ParametricLP.Config
import ParametricLP.Path
import ParametricLP.Trace.Breakpoint
import ParametricLP.Trace.Verdict

/-! # Tracing the path

Starting from a basis that is optimal for all large `lam`, a run alternates between two steps.
`Run.approach` finds the next breakpoint below the current one and records the basis held on the way
there; `Run.cross` exchanges one column of the basis at the breakpoint. `Run.trace` repeats them,
recursing on the number of pivots that may still be made, and `solve` starts it off.

What is recorded at a breakpoint is the tableau itself. Solutions and multipliers are read off it by
`Tableau.primal` and `Tableau.dual`, so an `Outcome` shows which basis was held on which segment of
the path. -/

namespace ParametricLP

variable {α : Type} [Scalar α] {m n : Nat}

/-- One completed pivot. -/
structure Exchange (α : Type) (m n : Nat) where
  lam : α
  crossing : Crossing m n
  entering : Fin n
  leaving : Fin n

/-- What a run holds between two steps. -/
structure Run (α : Type) (m n : Nat) where
  tableau : Tableau α m n
  /-- The `lam` of the last breakpoint crossed; nothing before the first one. -/
  bound : Option α
  /-- Consecutive breakpoints found at the same `lam`. -/
  stalls : Nat
  recorder : Recorder α (Tableau α m n)
  exchanges : Array (Exchange α m n)

/-- Why a run breaks off without a verdict. -/
inductive RunError (α : Type) where
  /-- No crossing compares with the largest one. -/
  | undeterminedCrossing
  /-- No ratio compares with the smallest one: one of them is undefined. -/
  | undeterminedRatio
  /-- A breakpoint could not be appended to the path. -/
  | recording (cause : RecorderError α)
  deriving DecidableEq, Repr

/-- A run that broke off. -/
structure Breakdown (α : Type) (m n : Nat) where
  cause : RunError α
  /-- The pivots made before, in order. -/
  exchanges : List (Exchange α m n)

/-- What a run leaves behind. -/
structure Outcome (α : Type) (m n : Nat) where
  verdict : Verdict α n
  /-- The recorded path, with the tableau held at each breakpoint. -/
  path : List (Mark α (Tableau α m n))
  /-- The pivots made, in order. -/
  exchanges : List (Exchange α m n)
  /-- The basis held at the end. -/
  basis : Vector (Fin n) m

/-- A run before its next pivot, or at its end. -/
inductive Progress (α : Type) (m n : Nat) where
  | stopped (verdict : Verdict α n) (run : Run α m n)
  | reached (breakpoint : Breakpoint α m n) (run : Run α m n)

/-- A run after a pivot, or at its end. -/
inductive Pivoted (α : Type) (m n : Nat) where
  | stopped (verdict : Verdict α n) (run : Run α m n)
  | crossed (run : Run α m n)

/-! ### The starting basis -/

namespace Tableau

/-- The first row whose basic value is negative for large `lam`. -/
def primalStartFault? (tol : α) (t : Tableau α m n) : Option (Fin m) :=
  let ok := t.values.nonnegAtInfinity (Scalar.tolerance tol t.values.constant)
    (Scalar.tolerance tol t.values.slope)
  (List.finRange m).find? fun i => !ok[i]

/-- The first nonbasic column whose reduced cost is negative for large `lam`. -/
def dualStartFault? (tol : α) (t : Tableau α m n) : Option (Fin n) :=
  let ok := t.reducedCosts.nonnegAtInfinity (Scalar.tolerance tol t.reducedCosts.constant)
    (Scalar.tolerance tol t.reducedCosts.slope)
  (List.finRange n).find? fun j => !(ok[j] || t.isBasic[j])

/-- Why a starting tableau is not optimal for all large `lam`, if it is not. -/
def startFault? (tol : α) (t : Tableau α m n) : Option (Verdict α n) :=
  match t.primalStartFault? tol with
  | some i => some (.primalInfeasibleStart t.basis[i])
  | none => (t.dualStartFault? tol).map .dualInfeasibleStart

end Tableau

/-! ### The steps of a run -/

namespace Run

/-- A run at its starting tableau. -/
def start (cfg : Config α) (t : Tableau α m n) : Run α m n :=
  { tableau := t
    bound := none
    stalls := 0
    recorder := .ofCapacity cfg.maxBreakpoints cfg.maxBreakpoints_pos
    exchanges := #[] }

/-- What a run leaves behind when it stops. -/
def finish (run : Run α m n) (verdict : Verdict α n) : Outcome α m n :=
  { verdict
    path := run.recorder.marks.toList
    exchanges := run.exchanges.toList
    basis := run.tableau.basis }

/-- What is left of a run that breaks off. -/
def breakdown (run : Run α m n) (cause : RunError α) : Breakdown α m n :=
  ⟨cause, run.exchanges.toList⟩

/-- The tableau in hand recorded at `lam`; a full recorder stays as it is. -/
def record (run : Run α m n) (lam : α) : Except (RunError α) (Run α m n) :=
  match run.recorder.append lam run.tableau with
  | .ok recorder => .ok { run with recorder := recorder.getD run.recorder }
  | .error cause => .error (.recording cause)

/-- The end of a path whose last basis stays optimal down to the threshold. -/
def stopAtThreshold (cfg : Config α) (run : Run α m n) :
    Except (RunError α) (Progress α m n) :=
  if isBelow cfg.threshold run.bound then
    (run.record cfg.threshold).map (.stopped .reachedThreshold)
  else
    .ok (.stopped .reachedThreshold run)

/-- A run that has come to a breakpoint above the threshold: one below the last breakpoint is
    recorded, one at the last breakpoint counts as a stall. -/
def arrive (cfg : Config α) (run : Run α m n) (b : Breakpoint α m n) :
    Except (RunError α) (Progress α m n) :=
  if isBelow b.lam run.bound then
    (run.record b.lam).map fun run =>
      -- The path has moved on, so the count of stalls starts again.
      let run := { run with stalls := 0 }
      if run.recorder.isFull then
        .stopped (.breakpointsExhausted run.recorder.capacity) run
      else
        .reached b run
  else
    let run := { run with stalls := run.stalls + 1 }
    let cap := cfg.stallCap m n
    .ok (if cap < run.stalls then .stopped (.cycling cap b.lam) run else .reached b run)

/-- The way to the next breakpoint, or to the end of the path. -/
def approach (cfg : Config α) (run : Run α m n) : Except (RunError α) (Progress α m n) :=
  match run.tableau.nextBreakpoint cfg.tol with
  | .undetermined => .error .undeterminedCrossing
  | .empty => run.stopAtThreshold cfg
  | .chosen b =>
    -- Rounding may put a crossing a little above the last breakpoint.
    let b := b.clip run.bound
    if b.lam ≤ cfg.floor then run.stopAtThreshold cfg else run.arrive cfg b

/-- The run after `entering` has replaced the column held by `row`. -/
def exchange (p : Instance α m n) (cfg : Config α) (run : Run α m n) (b : Breakpoint α m n)
    (row : Fin m) (entering : Fin n) : Pivoted α m n :=
  match run.tableau.pivot p cfg.refactorEvery row entering with
  | .error cause =>
    -- The basis has changed already, and nothing recorded shows the inverse left behind.
    .stopped (.refactorFailed cause) { run with tableau := run.tableau.swap row entering }
  | .ok tableau =>
    .crossed { run with
      tableau
      bound := some b.lam
      exchanges := run.exchanges.push ⟨b.lam, b.crossing, entering, run.tableau.basis[row]⟩ }

/-- The pivot at a breakpoint, if there is one to make. -/
def cross (p : Instance α m n) (cfg : Config α) (run : Run α m n) (b : Breakpoint α m n) :
    Except (RunError α) (Pivoted α m n) :=
  match b.crossing with
  | .primal row =>
    match run.tableau.entering p cfg.tol b.lam row with
    | .undetermined => .error .undeterminedRatio
    | .empty => .ok (.stopped (.infeasible b.lam run.tableau.basis[row]) run)
    | .chosen column => .ok (run.exchange p cfg b row column)
  | .dual column =>
    match run.tableau.leaving p cfg.tol b.lam column with
    | .undetermined => .error .undeterminedRatio
    | .empty => .ok (.stopped (.unbounded b.lam column) run)
    | .chosen row => .ok (run.exchange p cfg b row column)

/-- The rest of a run that may make `remaining` more pivots. -/
def trace (p : Instance α m n) (cfg : Config α) :
    (remaining : Nat) → Run α m n → Except (Breakdown α m n) (Outcome α m n)
  | remaining, run => do
    match ← (run.approach cfg).mapError run.breakdown with
    | .stopped verdict run => return run.finish verdict
    | .reached b run =>
      -- The limit is checked at a breakpoint: a path that ends there needs no further pivot.
      match remaining with
      | 0 => return run.finish (.pivotsExhausted cfg.maxPivots)
      | remaining + 1 =>
        match ← (run.cross p cfg b).mapError run.breakdown with
        | .stopped verdict run => return run.finish verdict
        | .crossed run => trace p cfg remaining run

end Run

/-- Traces the path of a problem from its starting basis down to the threshold. -/
def solve (p : Instance α m n) (cfg : Config α) : Except (Breakdown α m n) (Outcome α m n) :=
  match Tableau.start p with
  | .error cause =>
    .ok { verdict := .singularStart cause, path := [], exchanges := [], basis := p.basis }
  | .ok tableau =>
    let run := Run.start cfg tableau
    match tableau.startFault? cfg.tol with
    | some verdict => .ok (run.finish verdict)
    | none => run.trace p cfg cfg.maxPivots

namespace Outcome

/-- Number of pivots made. -/
def pivots (o : Outcome α m n) : Nat :=
  o.exchanges.length

/-- The recorded values of `lam`. -/
def lams (o : Outcome α m n) : List α :=
  o.path.map (·.lam)

/-- The recorded solutions. -/
def primal (o : Outcome α m n) : List (Vector α n) :=
  o.path.map fun mark => mark.held.primal mark.lam

/-- The recorded multipliers. -/
def dual (o : Outcome α m n) : List (Vector α m) :=
  o.path.map fun mark => mark.held.dual mark.lam

end Outcome

end ParametricLP
