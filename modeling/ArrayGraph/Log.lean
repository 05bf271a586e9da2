/-!
# Log entries

What happens on the way is told in log entries, which are part of the result.
-/

namespace ArrayGraph

/-- How much an entry matters. -/
inductive LogLevel where
  | warn
  | debug
deriving DecidableEq, Repr

/-- One line of a log, which may itself span several lines of text. -/
structure LogEntry where
  level : LogLevel
  text : String
deriving DecidableEq, Repr

/-- The name of a level. -/
def LogLevel.name : LogLevel → String
  | .warn => "WARN"
  | .debug => "DEBUG"

end ArrayGraph
