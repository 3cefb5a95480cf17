/-!
What the program reports while it runs. An event is a value, so that a function that reports says so
in its result.
-/

namespace ModuleHost.Log

inductive Level where
  | error
  | warn
  | info
  | debug
  | trace
  deriving DecidableEq, Repr

def Level.name : Level → String
  | .error => "ERROR"
  | .warn => "WARN"
  | .info => "INFO"
  | .debug => "DEBUG"
  | .trace => "TRACE"

inductive Value where
  | text (s : String)
  | count (n : Nat)
  | flag (b : Bool)
  deriving DecidableEq, Repr

structure Event where
  level : Level
  message : String
  fields : List (String × Value)
  deriving DecidableEq, Repr

end ModuleHost.Log
