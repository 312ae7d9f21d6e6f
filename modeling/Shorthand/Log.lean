/-!
# Log lines

The lines that are logged on the way, of two levels.
-/

namespace Shorthand

inductive Level where
  | debug
  | warning
  deriving DecidableEq, Repr

def Level.text : Level → String
  | .debug => "DEBUG"
  | .warning => "WARNING"

/-- A logged line. -/
structure LogLine where
  level : Level
  message : String
  deriving DecidableEq, Repr

def LogLine.text (l : LogLine) : String := l.level.text ++ ": " ++ l.message

end Shorthand
