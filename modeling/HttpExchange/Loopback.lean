/-
# The loopback

A pipeline that answers every request itself. Once the request has ended it
replies with status 200 and the cluster the request was routed to, the bytes of
the request as the body, and a trailer. A request that asks for an error by
`x-loopback-error` is answered with a marked response instead. A request that
was given up is not answered.
-/
import HttpExchange.Client

namespace HttpExchange

/-- A part of a response, as the pipeline hands it to the dispatcher. -/
inductive ResponsePart
  | headers (block : Headers) (last : Bool)
  | data (bytes : Bytes) (last : Bool)
  | trailers (block : Headers)
  | reset (reason : ResetReason)
  deriving DecidableEq, Repr

def ResponsePart.operation (h : Handle) : ResponsePart → Operation
  | headers block last => .onHeaders h block last
  | data bytes last => .onData h bytes last
  | trailers block => .onTrailers h block
  | reset reason => .onReset h reason

/-- A request object of the loopback. -/
structure Loopback where
  cluster : Option String := none
  errorCode : Option String := none
  body : Bytes := []
  /-- The request was answered or given up. -/
  finished : Bool := false
  deriving DecidableEq, Repr, Inhabited

namespace Loopback

def errorName : String := "x-loopback-error"

def clusterName : String := "x-loopback-cluster"

def trailerName : String := "x-loopback-trailer"

def errorMessage : String := "loopback error requested"

/-- The whole answer to a request that is not finished. -/
def answer (r : Loopback) : List ResponsePart :=
  match r.errorCode with
  | some code =>
    [.headers (.ofList [(Headers.statusName, "503"), (StreamError.codeName, code),
      (StreamError.messageName, errorMessage), (StreamError.attemptsName, "1")]) true]
  | none =>
    let cluster := match r.cluster with
      | some name => [(clusterName, name)]
      | none => []
    .headers (.ofList ((Headers.statusName, "200") :: cluster)) false
      :: (if r.body.isEmpty then [] else [.data r.body false])
      ++ [.trailers (.ofList [(trailerName, "done")])]

/-- Answers the request, at most once. -/
def respond (r : Loopback) : Loopback × List ResponsePart :=
  if r.finished then (r, []) else ({ r with finished := true }, r.answer)

def call (r : Loopback) : RequestCall → Loopback × List ResponsePart
  | .headers block last =>
    let r := { r with cluster := block.get? Headers.clusterName, errorCode := block.get? errorName }
    if last then r.respond else (r, [])
  | .data bytes last =>
    let r := { r with body := r.body ++ bytes }
    if last then r.respond else (r, [])
  | .trailers _ => r.respond
  | .details _ => (r, [])
  | .reset _ => ({ r with finished := true }, [])

end Loopback
end HttpExchange
