/-
# Call errors

Why a call on the engine is refused. What goes wrong with a stream afterwards
reaches the application as a `StreamError`, not from a call.
-/
import HttpExchange.Config.Validation
import HttpExchange.Handle

namespace HttpExchange

inductive CallError
  | duplicateStream (h : Handle)
  | invalidArgument (what : String)
  | invalidConfig (issues : List ConfigIssue)
  /-- The dispatcher is gone, so that nothing posted now would run. -/
  | terminated
  | spawn (why : String)
  deriving DecidableEq, Repr

def CallError.message : CallError → String
  | .duplicateStream h => "stream " ++ h.render ++ " has already been started"
  | .invalidArgument what => "invalid argument: " ++ what
  | .invalidConfig issues => "invalid configuration: " ++ ConfigIssue.messages issues
  | .terminated => "engine dispatcher has terminated"
  | .spawn why => "failed to spawn dispatcher thread: " ++ why

abbrev Status := Except CallError Unit

end HttpExchange
