/-! Events: what an operation tells a log while it runs. -/

namespace CallGrammar

/-- How much attention an event asks for. -/
inductive Level where
  | info
  | debug
deriving DecidableEq

def Level.name : Level → String
  | .info => "INFO"
  | .debug => "DEBUG"

/-- A message with named details. -/
structure Event where
  level : Level
  message : String
  fields : List (String × String)
deriving DecidableEq

end CallGrammar
