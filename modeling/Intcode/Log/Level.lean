/-! Levels of log records, and the thresholds that select records by level. -/

namespace Intcode.Log

/-- How grave a record is, from an error down to a trace of single reads. -/
inductive Level where
  | error
  | warn
  | info
  | debug
  | trace
deriving DecidableEq, Repr

namespace Level

/-- The graver the level, the lower its rank. -/
def rank : Level → Nat
  | .error => 1
  | .warn => 2
  | .info => 3
  | .debug => 4
  | .trace => 5

def name : Level → String
  | .error => "ERROR"
  | .warn => "WARN"
  | .info => "INFO"
  | .debug => "DEBUG"
  | .trace => "TRACE"

/-- The records that are written for finding a mistake, and that a filter can select. -/
def isDiagnostic : Level → Bool
  | .debug | .trace => true
  | _ => false

end Level

/-- The least grave level that is still written, or none at all. -/
inductive Threshold where
  | off
  | upTo (level : Level)
deriving DecidableEq, Repr

namespace Threshold

def admits : Threshold → Level → Bool
  | .off, _ => false
  | .upTo bound, level => level.rank ≤ bound.rank

def name : Threshold → String
  | .off => "OFF"
  | .upTo level => level.name

/-- The threshold with a given name, in letters of either case; a name that is not known
stands for the level of informative records. -/
def ofName (name : String) : Threshold :=
  match String.ofList (name.toList.map Char.toLower) with
  | "off" => .off
  | "error" => .upTo .error
  | "warn" => .upTo .warn
  | "info" => .upTo .info
  | "debug" => .upTo .debug
  | "trace" => .upTo .trace
  | _ => .upTo .info

end Threshold

end Intcode.Log
