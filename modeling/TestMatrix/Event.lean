import TestMatrix.Json.Basic

/-! # Log events -/

namespace TestMatrix

inductive Level where
  | error
  | warn
  | info
  | debug
deriving DecidableEq

namespace Level

def name : Level → String
  | .error => "ERROR"
  | .warn => "WARN"
  | .info => "INFO"
  | .debug => "DEBUG"

/-- The number of graver levels. -/
def rank : Level → Nat
  | .error => 0
  | .warn => 1
  | .info => 2
  | .debug => 3

end Level

structure Event where
  level : Level
  message : String
  fields : Fields

namespace Event

/-- The number of levels that are logged: errors and warnings, and one more for every time more
logging was asked for. -/
def limit (verbosity : Nat) : Nat := verbosity + 2

def isKept (limit : Nat) (event : Event) : Bool := event.level.rank < limit

/-- An event as a line of a log file holds it. -/
def toJson (event : Event) (timestamp : String) : Json :=
  .obj [("timestamp", .str timestamp), ("level", .str event.level.name),
    ("fields", .obj (("message", .str event.message) :: event.fields))]

end Event

end TestMatrix
