import Intcode.Log.Level
import Intcode.Text.Blank
import Intcode.Text.Fields

/-! Log records and the logger that selects and writes them.

A logger has a threshold, and may have a filter: a list of beginnings of targets, which
only the diagnostic records have to match.
-/

namespace Intcode.Log

/-- A message with its level, its topic and, where it is known, the part of the program
that wrote it. -/
structure Record where
  level : Level
  target : String
  origin : Option String
  message : String
deriving DecidableEq, Repr

structure Logger where
  threshold : Threshold
  filter : Option (List (List Char))
deriving DecidableEq, Repr

namespace Logger

/-- The beginnings of targets that a filter text lists: its pieces between commas, without
blanks around them, except the empty ones. -/
def pieces (text : String) : List (List Char) :=
  ((Text.split ',' text.toList).map Text.trim).filter fun piece => !piece.isEmpty

/-- A logger from a threshold and the text of a filter. -/
def create (threshold : Threshold) (filter : Option String) : Logger :=
  ⟨threshold, filter.map pieces⟩

/-- Whether a record of this level and target passes the filter. -/
def selects (logger : Logger) (level : Level) (target : String) : Bool :=
  match logger.filter with
  | none => true
  | some beginnings =>
      !level.isDiagnostic || beginnings.any fun beginning => beginning.isPrefixOf target.toList

/-- Whether a record of this level and target is written. -/
def enabled (logger : Logger) (level : Level) (target : String) : Bool :=
  logger.threshold.admits level && logger.selects level target

end Logger

namespace Level

/-- The terminal's number of the colour in which the level is written. -/
def colour : Level → String
  | .error => "31"
  | .warn => "33"
  | .info => "32"
  | .debug => "36"
  | .trace => "35"

/-- The name of the level in five columns. -/
def column (level : Level) : String :=
  level.name ++ String.ofList (List.replicate (5 - level.name.length) ' ')

end Level

namespace Record

/-- The origin in brackets, where it says more than the target. -/
def suffix (record : Record) : String :=
  match record.origin with
  | none => ""
  | some origin => if origin = record.target then "" else " [" ++ origin ++ "]"

/-- The line that is written for a record at a time of day. -/
def line (record : Record) (time : String) : String :=
  time ++ " \x1b[" ++ record.level.colour ++ "m" ++ record.level.column ++ "\x1b[0m " ++
    record.target ++ ": " ++ record.message ++ record.suffix ++ "\n"

end Record

namespace Logger

/-- The text that is written for the records that are enabled, in their order. -/
def write (logger : Logger) (time : String) (records : List Record) : String :=
  String.join ((records.filter fun record => logger.enabled record.level record.target).map
    (·.line time))

end Logger

end Intcode.Log
