import ExprCalculus.Text.Caseless

/-!
# Log levels

How much a session writes to its log, from nothing to everything.
-/

namespace ExprCalculus

/-- The levels, each with all that the ones before it let through. -/
inductive LogLevel where
  | off
  | error
  | warn
  | info
  | debug
  | trace
  deriving DecidableEq

namespace LogLevel

def all : List LogLevel := [off, error, warn, info, debug, trace]

def title : LogLevel → String
  | off => "OFF"
  | error => "ERROR"
  | warn => "WARN"
  | info => "INFO"
  | debug => "DEBUG"
  | trace => "TRACE"

/-- The level with this name, in any mixture of cases. -/
def ofName? (name : String) : Option LogLevel :=
  all.find? fun level => Text.sameCaseless name level.title

end LogLevel
end ExprCalculus
