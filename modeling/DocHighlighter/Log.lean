/-
# Log records

What happens on the way is told in records, which are values: a function that
logs gives its records beside its result, in the order in which they arose.
-/

namespace DocHighlighter

/-- How grave a record is. -/
inductive LogLevel where
  | info
  | warning
  | error
  deriving DecidableEq

/-- The name of a level. -/
def LogLevel.name : LogLevel → String
  | info => "INFO"
  | warning => "WARNING"
  | error => "ERROR"

/-- A message with its level. -/
structure LogRecord where
  level : LogLevel
  message : String
  deriving DecidableEq

/-- The records of a piece of work, in order. -/
abbrev Log := List LogRecord

end DocHighlighter
