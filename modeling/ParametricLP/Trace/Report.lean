import ParametricLP.Log.Record
import ParametricLP.Optimality
import ParametricLP.Trace.Run

/-! # Reports of a run

What a run tells besides its numbers: the lines it logs, the solutions along its path, and the
one-line descriptions of a solver and of a path. -/

namespace ParametricLP

variable {α : Type} [Scalar α] {m n : Nat}

/-- How a report writes numbers: briefly in messages, with more digits for pivots. -/
structure Numerals (α : Type) where
  brief : α → String
  fine : α → String

/-- Word for the kind of a crossing. -/
def Crossing.text : Crossing m n → String
  | .primal _ => "primal"
  | .dual _ => "dual"

/-- Line for pivot number `k`. -/
def Exchange.line (num : Numerals α) (k : Nat) (e : Exchange α m n) : String :=
  s!"Pivot {k} at lambda={num.fine e.lam}: column {e.entering} enters, " ++
    s!"column {e.leaving} leaves ({e.crossing.text} crossing)"

/-- What a run logs up to its end: its start, and every pivot. -/
def runRecords (num : Numerals α) (cfg : Config α) (exchanges : List (Exchange α m n)) :
    List Log.Record :=
  let opening : Log.Record := ⟨Log.Source.tracer.logger, Log.info,
    s!"Tracing path: {m} rows, {n} columns, lambda_threshold={num.brief cfg.threshold}"⟩
  let pivots := exchanges.mapIdx fun k e =>
    (⟨Log.Source.tracer.logger, Log.debug, e.line num (k + 1)⟩ : Log.Record)
  opening :: pivots

namespace Outcome

/-- Status of the run. -/
def status (o : Outcome α m n) : Status :=
  o.verdict.status

/-- The recorded solutions with their multipliers. -/
def entries (o : Outcome α m n) : List (PathEntry α m n) :=
  o.path.map fun mark => ⟨mark.lam, mark.held.primal mark.lam, mark.held.dual mark.lam⟩

/-- The closing record: a note for a path that is valid, a warning for one that was cut short. -/
def closingRecord (num : Numerals α) (o : Outcome α m n) : Log.Record :=
  if o.status.isSuccess then
    ⟨Log.Source.tracer.logger, Log.info,
      s!"Path finished ({o.status.text}): {o.path.length} breakpoints, {o.pivots} pivots"⟩
  else
    ⟨Log.Source.tracer.logger, Log.warning,
      s!"Path stopped early ({o.status.text}): {o.verdict.message num.brief}"⟩

/-- Everything that a run logs, in order. -/
def records (num : Numerals α) (cfg : Config α) (o : Outcome α m n) : List Log.Record :=
  runRecords num cfg o.exchanges ++ [o.closingRecord num]

end Outcome

/-- What a run has logged when it breaks off. -/
def Breakdown.records (num : Numerals α) (cfg : Config α) (b : Breakdown α m n) :
    List Log.Record :=
  runRecords num cfg b.exchanges

/-- A solver written by the size of its problem and the pivots of its last run. -/
def solverText (rows cols pivots : Nat) : String :=
  s!"ParametricSimplexSolver(rows={rows}, cols={cols}, nit={pivots})"

end ParametricLP
