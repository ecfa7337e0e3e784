/-
# Engine configuration

The settings of an engine in four sections, each with its defaults.
-/
import HttpExchange.Network

namespace HttpExchange

structure FlowControl where
  /-- Hold response data back until the application grants credit for it. -/
  explicit : Bool := false
  highWatermark : Nat := 1000000
  deriving DecidableEq, Repr, Inhabited

structure NetworkSettings where
  preferred : Network := .generic
  deriving DecidableEq, Repr, Inhabited

structure DispatcherSettings where
  threadName : String := "stream-dispatcher"
  deriving DecidableEq, Repr, Inhabited

structure Observability where
  logLevel : String := "info"
  metricsEnabled : Bool := true
  deriving DecidableEq, Repr, Inhabited

structure Config where
  flowControl : FlowControl := {}
  network : NetworkSettings := {}
  dispatcher : DispatcherSettings := {}
  observability : Observability := {}
  deriving DecidableEq, Repr, Inhabited

/-- The log filter that stands for a configured level. -/
def Observability.filter (o : Observability) : String :=
  "stream_engine=" ++ Text.lower o.logLevel

end HttpExchange
