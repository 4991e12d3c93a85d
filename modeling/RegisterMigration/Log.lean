/-!
# Log records

What is worth telling about a decision besides its result. The functions that decide do
not log; the records are computed beside them, in the order in which they are written.
-/

namespace RegisterMigration

/-- How important a log record is. -/
inductive LogLevel where
  | warn
  | info
  | debug
  | trace
  deriving DecidableEq, Repr

/-- The word for a level. -/
def LogLevel.name : LogLevel → String
  | .warn => "warn"
  | .info => "info"
  | .debug => "debug"
  | .trace => "trace"

/-- How many levels are more important. -/
def LogLevel.rank : LogLevel → Nat
  | .warn => 0
  | .info => 1
  | .debug => 2
  | .trace => 3

/-- A message and its importance. -/
structure LogRecord where
  level : LogLevel
  message : String
  deriving DecidableEq, Repr

end RegisterMigration
