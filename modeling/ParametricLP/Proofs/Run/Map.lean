import Mathlib
import ParametricLP.Trace.Report
import ParametricLP.Proofs.Run.Growth
import ParametricLP.Proofs.Selection.Permutation

/-!
# Runs through a map of tableaus

A run asks its tableau for little: the next breakpoint, what to exchange there, and the tableau after
that. Whatever else a tableau holds only passes through it. So a map of tableaus under which the next
breakpoint stays the same, up to the names of rows, may be applied before or after the way to it.

## Key results

- `Run.approach_map`: the way to a breakpoint commutes with a map of tableaus
- `Run.finish_map`: and so does stopping
-/

namespace ParametricLP

variable {α : Type} {m n : ℕ}

/-- A map of tableaus, with what becomes of crossings and of bases. -/
structure Translation (α : Type) (m n : ℕ) where
  tableau : Tableau α m n → Tableau α m n
  crossing : Crossing m n → Crossing m n
  basis : Vector (Fin n) m → Vector (Fin n) m
  basis_tableau : ∀ t, (tableau t).basis = basis t.basis

/-! ## Maps of what a run holds -/

def Mark.map {π ρ : Type} (f : π → ρ) (mark : Mark α π) : Mark α ρ :=
  ⟨mark.lam, f mark.held⟩

def Recorder.map {π ρ : Type} (f : π → ρ) (r : Recorder α π) : Recorder α ρ where
  capacity := r.capacity
  marks := r.marks.map (Mark.map f)
  capacity_pos := r.capacity_pos
  size_le := by
    rw [Array.size_map]
    exact r.size_le

def Breakpoint.map (τ : Translation α m n) (b : Breakpoint α m n) : Breakpoint α m n :=
  ⟨b.lam, τ.crossing b.crossing⟩

def Exchange.map (τ : Translation α m n) (e : Exchange α m n) : Exchange α m n :=
  { e with crossing := τ.crossing e.crossing }

def Run.map (τ : Translation α m n) (run : Run α m n) : Run α m n :=
  { run with
    tableau := τ.tableau run.tableau
    recorder := run.recorder.map τ.tableau
    exchanges := run.exchanges.map (Exchange.map τ) }

def Progress.map (τ : Translation α m n) : Progress α m n → Progress α m n
  | .stopped verdict run => .stopped verdict (run.map τ)
  | .reached b run => .reached (b.map τ) (run.map τ)

def Pivoted.map (τ : Translation α m n) : Pivoted α m n → Pivoted α m n
  | .stopped verdict run => .stopped verdict (run.map τ)
  | .crossed run => .crossed (run.map τ)

def Outcome.map (τ : Translation α m n) (o : Outcome α m n) : Outcome α m n :=
  { o with
    path := o.path.map (Mark.map τ.tableau)
    exchanges := o.exchanges.map (Exchange.map τ)
    basis := τ.basis o.basis }

variable {τ : Translation α m n} {run : Run α m n} {b : Breakpoint α m n}

/-- What a map of an answer gives is the image of an answer. -/
theorem exists_of_map_eq_ok {ε σ ρ : Type} {x : Except ε σ} {f : σ → ρ} {r : ρ}
    (h : x.map f = .ok r) : ∃ s, x = .ok s ∧ f s = r := by
  cases x with
  | error e => exact nomatch h
  | ok s => exact ⟨s, rfl, Except.ok.inj h⟩

@[simp] theorem Breakpoint.lam_map : (b.map τ).lam = b.lam := rfl

@[simp] theorem Breakpoint.crossing_map : (b.map τ).crossing = τ.crossing b.crossing := rfl

@[simp] theorem Run.tableau_map : (run.map τ).tableau = τ.tableau run.tableau := rfl

@[simp] theorem Run.bound_map : (run.map τ).bound = run.bound := rfl

@[simp] theorem Run.stalls_map : (run.map τ).stalls = run.stalls := rfl

@[simp] theorem Run.recorder_map : (run.map τ).recorder = run.recorder.map τ.tableau := rfl

/-- A mapped run has stopped where the run has, by the same verdict. -/
theorem Progress.map_eq_stopped_iff {progress : Progress α m n} {verdict : Verdict α n} :
    progress.map τ = .stopped verdict run ↔
      ∃ run', progress = .stopped verdict run' ∧ run'.map τ = run := by
  cases progress with
  | stopped verdict' run' => simp [map]
  | reached b run' => simp [map]

/-- A mapped run is at the image of the breakpoint that the run is at. -/
theorem Progress.map_eq_reached_iff {progress : Progress α m n} :
    progress.map τ = .reached b run ↔
      ∃ b' run', progress = .reached b' run' ∧ b'.map τ = b ∧ run'.map τ = run := by
  cases progress with
  | stopped verdict' run' => simp [map]
  | reached b' run' => simp [map, and_assoc]

/-- Stopping commutes with a map. -/
theorem Run.finish_map (τ : Translation α m n) (run : Run α m n) (verdict : Verdict α n) :
    (run.map τ).finish verdict = (run.finish verdict).map τ := by
  unfold finish map Outcome.map Recorder.map
  simp only [Array.toList_map, τ.basis_tableau]

/-! ## Recording -/

namespace Recorder

variable {π ρ : Type}

/-- The last mark stays where it is. -/
theorem last?_map (f : π → ρ) (r : Recorder α π) : (r.map f).last? = r.last? := by
  unfold last? map
  rw [Array.back?_map, Option.map_map]
  rfl

/-- There are as many marks. -/
theorem size_map (f : π → ρ) (r : Recorder α π) : (r.map f).size = r.size :=
  Array.size_map

/-- A recorder is full as its image is. -/
theorem isFull_map (f : π → ρ) (r : Recorder α π) : (r.map f).isFull = r.isFull := by
  unfold isFull
  rw [size_map]
  rfl

variable [Scalar α]

/-- Taking a mark commutes with a map. -/
theorem append_map (f : π → ρ) (r : Recorder α π) (lam : α) (held : π) :
    (r.map f).append lam (f held) = (r.append lam held).map (Option.map (map f)) := by
  -- Room is a matter of how many marks there are, and order one of where the last of them was taken.
  by_cases hfull : r.capacity ≤ r.size
  · have hfull' : (r.map f).capacity ≤ (r.map f).size := by
      rw [size_map]
      exact hfull
    unfold append
    rw [dif_pos hfull, dif_pos hfull']
    rfl
  · have hroom : ¬ (r.map f).capacity ≤ (r.map f).size := by
      rw [size_map]
      exact hfull
    unfold append
    rw [dif_neg hfull, dif_neg hroom, last?_map]
    split
    -- There is room, and the mark is taken or refused for where it lies.
    · refine congrArg (fun r => Except.ok (some r)) ?_
      unfold map
      simp only [Array.map_push]
      rfl
    · rfl

end Recorder

variable [Scalar α] {cfg : Config α}

namespace Run

/-- A mapped start is the start from the mapped tableau. -/
theorem start_map (τ : Translation α m n) (cfg : Config α) (t : Tableau α m n) :
    (start cfg t).map τ = start cfg (τ.tableau t) := by
  unfold start map Recorder.map Recorder.ofCapacity
  simp only [Array.map_empty]

/-- Recording commutes with a map. -/
theorem record_map (τ : Translation α m n) (run : Run α m n) (lam : α) :
    (run.map τ).record lam = (run.record lam).map (map τ) := by
  unfold record
  rw [recorder_map, tableau_map, Recorder.append_map]
  cases run.recorder.append lam run.tableau with
  | error cause => rfl
  | ok recorder =>
    cases recorder with
    | none => rfl
    | some recorder => rfl

/-! ## The way to a breakpoint -/

/-- Stopping at the threshold commutes with a map. -/
theorem stopAtThreshold_map (τ : Translation α m n) (cfg : Config α) (run : Run α m n) :
    (run.map τ).stopAtThreshold cfg = (run.stopAtThreshold cfg).map (Progress.map τ) := by
  unfold stopAtThreshold
  rw [record_map, bound_map]
  split
  · cases run.record cfg.threshold with
    | error cause => rfl
    | ok run' => rfl
  · rfl

/-- Arriving at a breakpoint commutes with a map. -/
theorem arrive_map (τ : Translation α m n) (cfg : Config α) (run : Run α m n)
    (b : Breakpoint α m n) :
    (run.map τ).arrive cfg (b.map τ) = (run.arrive cfg b).map (Progress.map τ) := by
  unfold arrive
  rw [Breakpoint.lam_map, record_map, bound_map]
  split
  · cases run.record b.lam with
    | error cause => rfl
    | ok run' =>
      -- Whether the path is full and how many stalls there were does not depend on the map.
      dsimp only [Except.map]
      rw [recorder_map, Recorder.isFull_map]
      split
      · rfl
      · rfl
  · dsimp only [Except.map]
    rw [stalls_map]
    split
    · rfl
    · rfl

end Run

/-- Clipping commutes with a map. -/
theorem Breakpoint.clip_map (τ : Translation α m n) (bound : Option α) (b : Breakpoint α m n) :
    (b.map τ).clip bound = (b.clip bound).map τ := by
  cases bound with
  | none => rfl
  | some top =>
    unfold clip
    dsimp only
    rw [lam_map]
    split
    · rfl
    · rfl

/-- The way to the next breakpoint commutes with a map under which that breakpoint stays the same. -/
theorem Run.approach_map {run : Run α m n} (h : (τ.tableau run.tableau).nextBreakpoint cfg.tol =
    (run.tableau.nextBreakpoint cfg.tol).map (Breakpoint.map τ)) :
    (run.map τ).approach cfg = (run.approach cfg).map (Progress.map τ) := by
  unfold approach
  rw [tableau_map, h]
  cases run.tableau.nextBreakpoint cfg.tol with
  | undetermined => rfl
  | empty => exact stopAtThreshold_map τ cfg run
  | chosen b =>
    -- The position decides whether to go on, and a map leaves it alone.
    dsimp only [Choice.map]
    rw [bound_map, Breakpoint.clip_map, Breakpoint.lam_map]
    split
    · exact stopAtThreshold_map τ cfg run
    · exact arrive_map τ cfg run _

end ParametricLP
