/-
# Validation of a configuration

Three rules a configuration must keep beyond having the right types. All that
are broken are reported, in this order: the high mark, the thread name, the log
level.
-/
import HttpExchange.Config.Basic
import HttpExchange.Text.Blank

namespace HttpExchange

inductive ConfigIssue
  | zeroWatermark
  | emptyThreadName
  | unknownLogLevel (level : String)
  deriving DecidableEq, Repr

namespace ConfigIssue

def message : ConfigIssue → String
  | zeroWatermark => "flow_control.buffer_high_watermark must be greater than zero"
  | emptyThreadName => "dispatcher.thread_name must not be empty"
  | unknownLogLevel level =>
    "observability.log_level \x60" ++ level ++ "\x60 is not one of trace, debug, info, warn, error"

def messages (issues : List ConfigIssue) : String := ", ".intercalate (issues.map message)

end ConfigIssue

def logLevels : List String := ["trace", "debug", "info", "warn", "error"]

namespace Config

def issues (c : Config) : List ConfigIssue :=
  (if c.flowControl.highWatermark = 0 then [.zeroWatermark] else [])
    ++ (if Text.trim c.dispatcher.threadName = "" then [.emptyThreadName] else [])
    ++ (if Text.lower c.observability.logLevel ∈ logLevels then []
        else [.unknownLogLevel c.observability.logLevel])

/-- A configuration an engine accepts. -/
def Valid (c : Config) : Prop := c.issues = []

instance (c : Config) : Decidable c.Valid := inferInstanceAs (Decidable (_ = _))

end Config
end HttpExchange
