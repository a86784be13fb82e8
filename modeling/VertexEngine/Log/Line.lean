import VertexEngine.Options

/-!
# Log lines

A line of the log has a level, a target that tells which part of the program wrote it, a message,
and fields with the values that belong to it, of which only the names are kept.
-/

namespace VertexEngine.Log

/-- How much a line matters, the most important level first. -/
inductive Level where
  | error
  | warn
  | info
  | debug
  | trace
  deriving DecidableEq, Repr, Inhabited

/-- How verbose a level is: a filter set to a level lets through all that are not more verbose. -/
def Level.verbosity : Level → Nat
  | .error => 1
  | .warn => 2
  | .info => 3
  | .debug => 4
  | .trace => 5

instance : Choice Level where
  noun := "log level"
  values := [.error, .warn, .info, .debug, .trace]
  name
    | .error => "error"
    | .warn => "warn"
    | .info => "info"
    | .debug => "debug"
    | .trace => "trace"

structure Line where
  level : Level
  target : String
  message : String
  /-- The names of the values beside the message. -/
  values : List String
  deriving DecidableEq, Repr

/-- The names of all fields of a line.  The message is one. -/
def Line.fields (line : Line) : List String :=
  "message" :: line.values

end VertexEngine.Log
