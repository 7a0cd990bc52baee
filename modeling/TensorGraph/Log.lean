/-!
# The log of a conversion

Log lines are data: every operation that reports something appends to the log of its state.
-/

namespace TensorGraph

/-- The levels of log lines, the most severe first. -/
inductive LogLevel where
  | warn
  | info
  | debug
  deriving DecidableEq, Repr

namespace LogLevel

/-- The position of a level, the most severe first. -/
def rank : LogLevel → Nat
  | .warn => 0
  | .info => 1
  | .debug => 2

/-- The name of a level in front of a line. -/
def text : LogLevel → String
  | .warn => "WARN"
  | .info => "INFO"
  | .debug => "DEBUG"

/-- A level by its lower-case name. -/
def ofName? : String → Option LogLevel
  | "warn" => some .warn
  | "info" => some .info
  | "debug" => some .debug
  | _ => none

end LogLevel

/-- A line of the log. -/
structure LogLine where
  level : LogLevel
  message : String
  deriving DecidableEq, Repr

/-- A line in words. -/
def LogLine.text (line : LogLine) : String :=
  line.level.text ++ " " ++ line.message

/-- The lines of a conversion, in order. -/
abbrev Log := List LogLine

/-- The lines of a level or a more severe one, in words. -/
def Log.texts (log : Log) (level : LogLevel) : List String :=
  (log.filter fun line => line.level.rank ≤ level.rank).map LogLine.text

end TensorGraph
