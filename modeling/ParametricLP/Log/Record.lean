import ParametricLP.Log.Level
import ParametricLP.Log.Source

/-! # Log records

A record is what is to be logged. Line formats ask for its attributes by name. -/

namespace ParametricLP.Log

/-- Something to be logged. -/
structure Record where
  logger : String
  level : Int
  message : String
  deriving DecidableEq, Repr

/-- What a record says under one name. -/
inductive Attribute where
  | text (cs : List Char)
  | number (n : Int)
  deriving DecidableEq, Repr

/-- The attribute of a name. A record kept here has no others: where and when it was made is not
    part of it. -/
def Record.attribute? (r : Record) (name : String) : Option Attribute :=
  match name with
  | "name" => some (.text r.logger.toList)
  | "levelno" => some (.number r.level)
  | "levelname" => some (.text (levelText r.level).toList)
  | "msg" | "message" => some (.text r.message.toList)
  | _ => none

end ParametricLP.Log
