import ParametricLP.Log.Format

/-! # Loggers and their settings

A `Registry` holds the loggers handed out so far and the level that new ones start with. Three
calls change it (`Call`): one hands out a logger and makes it if it is new, one sets the level of all
loggers and of those to come, one configures them anew. Loggers are changed one after the other, and
each checks the level that it is given, so that a call may break off; `Registry.call` tells what is
left then. `Registry.write` tells what a record adds to the two streams. -/

namespace ParametricLP.Log

/-- Where lines go. -/
inductive Stream where
  | standardError
  | captured
  deriving DecidableEq, Repr

/-- Writes records of sufficient level to a stream. -/
structure Handler where
  level : Int
  format : Format
  stream : Stream
  deriving DecidableEq, Repr

/-- A named source of records with its handlers. -/
structure Logger where
  name : String
  level : Int
  handlers : List Handler
  /-- Whether records are handed on to the loggers above. -/
  propagate : Bool
  deriving DecidableEq, Repr

/-- All loggers handed out, in that order, and the level of the next new one. -/
structure Registry where
  loggers : List Logger
  newLevel : Int
  deriving DecidableEq, Repr

/-- A call that hands out or changes loggers. -/
inductive Call where
  | get (name : Option String)
  | setLevel (request : LevelRequest)
  | configure (request : LevelRequest) (format : Option String) (stream : Stream)
  deriving DecidableEq, Repr

/-- What a call leaves behind, and why it broke off if it did. -/
structure Called where
  registry : Registry
  refusal : Option SettingError
  deriving DecidableEq, Repr

/-- The registry after a call that has to succeed. -/
def Called.toExcept (called : Called) : Except SettingError Registry :=
  match called.refusal with
  | none => .ok called.registry
  | some cause => .error cause

/-- Text added to each stream. -/
structure Written where
  standardError : String
  captured : String
  deriving DecidableEq, Repr

namespace Written

/-- Nothing added. -/
def none : Written :=
  ⟨"", ""⟩

/-- What is added first, and then what is added after it. -/
def append (v w : Written) : Written :=
  ⟨v.standardError ++ w.standardError, v.captured ++ w.captured⟩

end Written

/-- Full name of a logger. -/
def fullName : Option String → String
  | none => packageName
  | some name => if packageName.isPrefixOf name then name else packageName ++ "." ++ name

namespace Registry

/-- A logger as it is when new. -/
def newLogger (r : Registry) (name : String) : Logger :=
  ⟨name, r.newLevel, [⟨r.newLevel, .usual, .standardError⟩], false⟩

/-- The logger of a full name, if it has been handed out. -/
def find? (r : Registry) (name : String) : Option Logger :=
  r.loggers.find? fun l => l.name == name

/-- Hands out the logger of the given name, and makes it if it is new. -/
def get (r : Registry) (name : Option String) : Logger × Registry :=
  let name := fullName name
  match r.find? name with
  | some l => (l, r)
  | none => (r.newLogger name, { r with loggers := r.loggers ++ [r.newLogger name] })

/-- A name that has been handed out changes nothing. -/
theorem get_of_find? {r : Registry} {name : Option String} {l : Logger}
    (h : r.find? (fullName name) = some l) : r.get name = (l, r) := by
  simp [get, h]

/-- The logger handed out can be found under its name from then on. -/
theorem find?_get (r : Registry) (name : Option String) :
    (r.get name).2.find? (fullName name) = some (r.get name).1 := by
  simp only [get]
  split
  · assumption
  · rename_i h
    -- No logger before the new one has its name.
    simp only [find?] at h ⊢
    rw [List.find?_append, h]
    simp [newLogger]

/-- Asking twice for a name hands out the same logger and makes nothing new. -/
theorem get_get (r : Registry) (name : Option String) :
    (r.get name).2.get name = ((r.get name).1, (r.get name).2) :=
  get_of_find? (r.find?_get name)

/-- Loggers changed one after the other. Each checks the level before it takes it and has its
    handlers changed; the first to refuse the level ends the round, and those before it stay changed.
    -/
def changeEach (request : LevelRequest) (settle : Int → List Handler → List Handler) :
    List Logger → List Logger × Option SettingError
  | [] => ([], none)
  | l :: ls =>
    match request.level with
    | .error cause => (l :: ls, some cause)
    | .ok level =>
      let rest := changeEach request settle ls
      ({ l with level, handlers := settle level l.handlers } :: rest.1, rest.2)

/-- All loggers changed, and once all of them are the level of loggers to come. -/
def change (r : Registry) (request : LevelRequest)
    (settle : Int → List Handler → List Handler) : Called :=
  match changeEach request settle r.loggers with
  | (loggers, some cause) => ⟨{ r with loggers }, some cause⟩
  | (loggers, none) =>
    match request.level with
    | .error cause => ⟨{ r with loggers }, some cause⟩
    | .ok newLevel => ⟨{ loggers, newLevel }, none⟩

/-- The format that a text asks for; no text, or an empty one, asks for the usual format. -/
def format? : Option String → Except SettingError Format
  | none => .ok .usual
  | some text =>
    if text.isEmpty then .ok .usual
    else match Format.parse? text with
      | some format => .ok format
      | none => .error .noField

/-- A call: one for a logger, one for the level of all loggers and their handlers, or one that gives
    every logger a level and a single new handler. -/
def call (r : Registry) : Call → Called
  | .get name => ⟨(r.get name).2, none⟩
  | .setLevel request => r.change request fun level handlers =>
    handlers.map fun h => { h with level }
  | .configure request format stream =>
    match format? format with
    | .error cause => ⟨r, some cause⟩
    | .ok format => r.change request fun level _ => [⟨level, format, stream⟩]

/-- Sets the level of all loggers, of their handlers and of loggers to come. -/
def setLevel (r : Registry) (request : LevelRequest) : Except SettingError Registry :=
  (r.call (.setLevel request)).toExcept

/-- Gives all loggers a level and one new handler, and loggers to come the level. -/
def configure (r : Registry) (request : LevelRequest) (format : Option String) (stream : Stream) :
    Except SettingError Registry :=
  (r.call (.configure request format stream)).toExcept

/-- Level that applies where no logger sets one. -/
def rootLevel : Int := warning

/-- What stands before each dot of a name read backwards. A dot right before one that has been
    counted is passed over, and so is a dot that nothing stands before. -/
def beforeDots : List Char → List (List Char)
  | [] => []
  | ['.'] => []
  | '.' :: '.' :: cs => ('.' :: cs) :: beforeDots cs
  | '.' :: cs => cs :: beforeDots cs
  | _ :: cs => beforeDots cs

/-- Names of the loggers above one, nearest first: what stands before each dot. -/
def above (name : String) : List String :=
  (beforeDots name.toList.reverse).map fun cs => String.ofList cs.reverse

/-- The level that a logger goes by: its own, or where that is zero the nearest one above it. -/
def effectiveLevel (r : Registry) (l : Logger) : Int :=
  if l.level ≠ 0 then
    l.level
  else
    -- Names that were never handed out are passed over.
    let higher := (above l.name).filterMap fun name => (r.find? name).map (·.level)
    (higher.find? (· ≠ 0)).getD rootLevel

/-- Lines that the handlers of a logger write for a record to one stream. A handler whose format
    asks for what the record has not writes none. -/
def linesTo (stream : Stream) (l : Logger) (record : Record) : String :=
  let handlers := l.handlers.filter fun h => h.stream = stream && decide (h.level ≤ record.level)
  String.join (handlers.filterMap fun h => (h.format.line? record).map (· ++ "\n"))

/-- What a record adds to the streams.  A record of level zero or below is never written. -/
def write (r : Registry) (record : Record) : Written :=
  match r.find? record.logger with
  | none => .none
  | some l =>
    if 0 < record.level ∧ r.effectiveLevel l ≤ record.level then
      ⟨linesTo .standardError l record, linesTo .captured l record⟩
    else
      .none

/-- What several records add to the streams. -/
def writeAll (r : Registry) (records : List Record) : Written :=
  let texts := records.map r.write
  ⟨String.join (texts.map (·.standardError)), String.join (texts.map (·.captured))⟩

/-- The registry that the library starts with: a logger for the tracer and one for each family of
    reductions, at the level of warnings. -/
def initial : Registry :=
  let empty : Registry := ⟨[], warning⟩
  Source.all.foldl (fun r source => (r.get (some source.logger)).2) empty

end Registry

end ParametricLP.Log
