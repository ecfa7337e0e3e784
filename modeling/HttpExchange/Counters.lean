/-
# Counters

The counters an engine keeps about its streams. When they are switched off,
nothing is counted.
-/

namespace HttpExchange

inductive Metric
  | started
  /-- A stream completed with a status from 200 to 299. -/
  | success
  /-- A stream completed with another status, or ended in an error. -/
  | failure
  | cancel
  /-- A response buffer rose above its high mark. -/
  | highWatermark
  deriving DecidableEq, Repr

/-- All counters, in the order of their names below. -/
def Metric.all : List Metric := [.started, .success, .failure, .cancel, .highWatermark]

def Metric.name : Metric → String
  | started => "stream_engine_streams_started_total"
  | success => "stream_engine_stream_success_total"
  | failure => "stream_engine_stream_failure_total"
  | cancel => "stream_engine_stream_cancel_total"
  | highWatermark => "stream_engine_flow_control_high_watermark_total"

/-- The counts, and whether counting is switched on. -/
structure Counters where
  enabled : Bool := true
  started : Nat := 0
  success : Nat := 0
  failure : Nat := 0
  cancel : Nat := 0
  highWatermark : Nat := 0
  deriving DecidableEq, Repr, Inhabited

namespace Counters

def get (c : Counters) : Metric → Nat
  | .started => c.started
  | .success => c.success
  | .failure => c.failure
  | .cancel => c.cancel
  | .highWatermark => c.highWatermark

/-- Adds one to a counter if counting is switched on. -/
def record (c : Counters) (m : Metric) : Counters :=
  if c.enabled then
    match m with
    | .started => { c with started := c.started + 1 }
    | .success => { c with success := c.success + 1 }
    | .failure => { c with failure := c.failure + 1 }
    | .cancel => { c with cancel := c.cancel + 1 }
    | .highWatermark => { c with highWatermark := c.highWatermark + 1 }
  else c

/-- The counters that have counted something, with their names. -/
def report (c : Counters) : List (String × Nat) :=
  (Metric.all.filter fun m => c.get m != 0).map fun m => (m.name, c.get m)

theorem get_record (c : Counters) (m n : Metric) :
    (c.record m).get n = if c.enabled && m == n then c.get n + 1 else c.get n := by
  unfold record
  cases c.enabled <;> cases m <;> cases n <;> rfl

@[simp] theorem enabled_record (c : Counters) (m : Metric) :
    (c.record m).enabled = c.enabled := by
  unfold record
  split
  · cases m <;> rfl
  · rfl

end Counters
end HttpExchange
