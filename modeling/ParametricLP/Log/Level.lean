/-! # Levels of importance

A level is a number; six of them have names, and two names are second names. A level may be given as
a number or by a name in any mixture of cases. An unknown name means a warning; a reserved one is
refused. -/

namespace ParametricLP.Log

/-- Level of diagnostic detail. -/
def debug : Int := 10

/-- Level of ordinary notes. -/
def info : Int := 20

/-- Level of warnings. -/
def warning : Int := 30

/-- Level of errors. -/
def error : Int := 40

/-- Level of fatal errors. -/
def critical : Int := 50

/-- Name of a level in log lines. -/
def levelText (level : Int) : String :=
  if level = 0 then "NOTSET"
  else if level = debug then "DEBUG"
  else if level = info then "INFO"
  else if level = warning then "WARNING"
  else if level = error then "ERROR"
  else if level = critical then "CRITICAL"
  else s!"Level {level}"

/-- Names by which a level can be asked for. -/
def levelNames : List (String × Int) :=
  [("NOTSET", 0), ("DEBUG", debug), ("INFO", info), ("WARN", warning), ("WARNING", warning),
    ("ERROR", error), ("FATAL", critical), ("CRITICAL", critical)]

/-- A level as it was asked for. -/
inductive LevelRequest where
  | number (level : Int)
  | name (text : String)
  deriving DecidableEq, Repr

/-- Capital letters of a character that has ASCII capitals: besides the ASCII letters, the dotless
    i, the long s, the sharp s and the ligatures. -/
def capitals (c : Char) : List Char :=
  match c with
  | 'ı' => ['I']
  | 'ſ' => ['S']
  | 'ß' => ['S', 'S']
  | 'ﬀ' => ['F', 'F']
  | 'ﬁ' => ['F', 'I']
  | 'ﬂ' => ['F', 'L']
  | 'ﬃ' => ['F', 'F', 'I']
  | 'ﬄ' => ['F', 'F', 'L']
  | 'ﬅ' => ['S', 'T']
  | 'ﬆ' => ['S', 'T']
  | c => [c.toUpper]

/-- Why settings are refused. -/
inductive SettingError where
  /-- The name asked for stands for the basic line format, which is a text and no level. -/
  | notALevel
  /-- The name asked for stands for the table of line styles, which is not even a text. -/
  | notAText
  /-- The format has no field. -/
  | noField
  deriving DecidableEq, Repr

/-- Names that no level may have. -/
def reservedNames : List (String × SettingError) :=
  [("BASIC_FORMAT", .notALevel), ("_STYLES", .notAText)]

/-- The level asked for. -/
def LevelRequest.level : LevelRequest → Except SettingError Int
  | .number level => .ok level
  | .name text =>
    let name := String.ofList (text.toList.flatMap capitals)
    match reservedNames.lookup name with
    | some cause => .error cause
    | none => .ok ((levelNames.lookup name).getD warning)

end ParametricLP.Log
