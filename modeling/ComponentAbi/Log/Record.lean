/-!
# Log records

What a program tells about its work while it runs.
-/

namespace ComponentAbi

/-- How severe a record is. -/
inductive LogLevel where
  | error
  | warn
  | info
  | debug
  | trace
deriving DecidableEq, Repr, Inhabited

namespace LogLevel

/-- The number of a level: more severe ones have smaller numbers, and nothing has the number 0. -/
def rank : LogLevel → Nat
  | error => 1
  | warn => 2
  | info => 3
  | debug => 4
  | trace => 5

/-- The written name. -/
def name : LogLevel → String
  | error => "ERROR"
  | warn => "WARN"
  | info => "INFO"
  | debug => "DEBUG"
  | trace => "TRACE"

end LogLevel

/-- Something that is told about while a command runs. -/
structure LogRecord where
  /-- How severe it is. -/
  level : LogLevel
  /-- The part of the program that it comes from. -/
  target : String
  /-- What happened. -/
  message : String
  /-- The names of what else it tells. -/
  details : List String
deriving DecidableEq, Repr

namespace LogRecord

/-- The names of all that the record tells. -/
def fields (r : LogRecord) : List String :=
  "message" :: r.details

end LogRecord

end ComponentAbi
