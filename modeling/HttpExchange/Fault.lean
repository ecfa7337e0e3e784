/-
# Faults

A fault is a broken rule of use that ends the dispatcher rather than the call:
starting a stream twice, working on streams away from the dispatcher thread, or
naming a thread in a way the system cannot. Calls that merely fail report a
`CallError` instead.
-/
import HttpExchange.Handle

namespace HttpExchange

inductive Fault
  /-- A stream was started under a handle that is still registered. -/
  | startedTwice (h : Handle)
  /-- A handle was put into a registry that already holds it. -/
  | registeredTwice (h : Handle)
  /-- A stream operation ran on a thread other than the dispatcher's. -/
  | offThread
  /-- A thread name holds a zero byte; `bytes` is the name, `position` the place. -/
  | threadName (position : Nat) (bytes : Bytes)
  | crash
  deriving DecidableEq, Repr, Inhabited

def Fault.message : Fault → String
  | .startedTwice h => "[" ++ h.render ++ "] stream started twice"
  | .registeredTwice h => "[" ++ h.render ++ "] stream handle registered twice"
  | .offThread => "stream operation called off the dispatcher thread"
  | .threadName n bytes =>
    "thread name may not contain interior null bytes: NulError(" ++ toString n ++ ", ["
      ++ ", ".intercalate (bytes.map fun b => toString b.toNat) ++ "])"
  | .crash => "task gave up"

end HttpExchange
