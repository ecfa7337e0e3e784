/-
# The client

The client owns the streams of one engine. It takes the calls of the
application to the pipeline's request objects, and the response events of the
pipeline to each stream's response side, and it retires a stream once the
application has been told of its end: the stream leaves the registry, its handle
is given back, and it waits in a list of its own to be destroyed at the end of
the dispatcher's turn.

A step takes one operation and answers with what it does to the world outside,
in order: what applications are told, the calls on request objects, the handles
given back. Operations on a handle that is not registered do nothing.

Key definitions: `Operation`, `Output`, `Stream`, `Client`, `Client.step`.
-/
import HttpExchange.Config.Basic
import HttpExchange.Draws
import HttpExchange.Counters
import HttpExchange.Registry
import HttpExchange.Request
import HttpExchange.Response
import HttpExchange.Routing

namespace HttpExchange

/-- What the client is asked to do. -/
inductive Operation
  | start (h : Handle)
  | sendHeaders (h : Handle) (block : Headers) (last : Bool)
  | sendData (h : Handle) (bytes : Bytes) (last : Bool)
  | sendTrailers (h : Handle) (block : Headers)
  | cancel (h : Handle)
  | resume (h : Handle) (credit : Nat)
  | onHeaders (h : Handle) (block : Headers) (last : Bool)
  | onData (h : Handle) (bytes : Bytes) (last : Bool)
  | onTrailers (h : Handle) (block : Headers)
  | onReset (h : Handle) (reason : ResetReason)
  /-- Destroys the streams that were retired. -/
  | sweep
  deriving DecidableEq, Repr

/-- What a step does to the world outside the client. -/
inductive Output
  /-- The pipeline is asked for a request object. -/
  | opened (id : StreamId)
  | told (id : StreamId) (e : Event)
  | called (id : StreamId) (c : RequestCall)
  /-- The handle of a retired stream is given back. -/
  | released (h : Handle)
  deriving DecidableEq, Repr

structure Stream where
  id : StreamId
  /-- The request has ended. -/
  localClosed : Bool := false
  /-- The response has ended. -/
  remoteClosed : Bool := false
  response : Response
  deriving DecidableEq, Repr

/-- How many streams have ended in which way. -/
structure Outcomes where
  success : Nat := 0
  failure : Nat := 0
  cancel : Nat := 0
  deriving DecidableEq, Repr, Inhabited

structure Client where
  explicit : Bool := false
  highWatermark : Nat := 1000000
  streams : Registry Stream := {}
  /-- Retired streams that are not yet destroyed. -/
  retired : List Stream := []
  draws : Draws := {}
  outcomes : Outcomes := {}
  counters : Counters := {}
  /-- The number of streams started so far. -/
  nextSerial : Nat := 0

/-- What the pipeline is told when the application cancels. -/
def cancelDetails : String := "client cancelled stream"

namespace Client

def ofConfig (config : Config) (draws : Draws) : Client where
  explicit := config.flowControl.explicit
  highWatermark := config.flowControl.highWatermark
  draws := draws
  counters := { enabled := config.observability.metricsEnabled }

def count (c : Client) (m : Metric) : Client := { c with counters := c.counters.record m }

/-- Keeps a stream that has left the registry until the end of the turn, and
gives its handle back. -/
def retire (c : Client) (s : Stream) : Client × List Output :=
  ({ c with retired := c.retired ++ [{ s with localClosed := true, remoteClosed := true }] },
    [.released s.id.handle])

/-- Counts how a stream ended and retires it. -/
def settle (c : Client) (h : Handle) (d : Disposition) : Client × List Output :=
  let remove (c : Client) : Client × List Output :=
    match c.streams.remove h with
    | some (s, streams) => { c with streams := streams }.retire s
    | none => (c, [])
  match d with
  | .unfinished => (c, [])
  | .completed true =>
    remove ({ c with outcomes.success := c.outcomes.success + 1 }.count .success)
  | .completed false =>
    remove ({ c with outcomes.failure := c.outcomes.failure + 1 }.count .failure)
  | .failed =>
    remove ({ c with outcomes.failure := c.outcomes.failure + 1 }.count .failure)

def start (c : Client) (h : Handle) : Except Fault (Client × List Output) :=
  if c.streams.contains h .anyState then .error (.startedTwice h)
  else do
    let id : StreamId := ⟨h, c.nextSerial⟩
    let response : Response := { explicit := c.explicit, high := c.highWatermark }
    let streams ← c.streams.insert h { id := id, response := response }
    return ({ c with streams := streams, nextSerial := c.nextSerial + 1 }.count .started,
      [.opened id])

/-- Sends a part of the request, unless the request or the response has ended. -/
def send (c : Client) (h : Handle) (last : Bool) (call : RequestCall) : Client × List Output :=
  match c.streams.find? h .openOnly with
  | none => (c, [])
  | some s =>
    if s.localClosed then (c, [])
    else
      ({ c with streams :=
          c.streams.modify h .openOnly fun s => { s with localClosed := s.localClosed || last } },
        [.called s.id call])

/-- Sends request headers. Each block that is sent costs one draw, whose lowest
bit chooses the partition. -/
def sendHeaders (c : Client) (network : Network) (h : Handle) (block : Headers) (last : Bool) :
    Client × List Output :=
  match c.streams.find? h .openOnly with
  | none => (c, [])
  | some s =>
    if s.localClosed then (c, [])
    else
      let (draw, draws) := c.draws.next
      { c with draws := draws }.send h last
        (.headers (block.routed network (draw % 2 == 1)) last)

/-- Ends a stream for the application, wherever it stands. -/
def cancel (c : Client) (h : Handle) : Client × List Output :=
  match c.streams.remove h with
  | none => (c, [])
  | some (s, streams) =>
    let c := { c with streams := streams, outcomes.cancel := c.outcomes.cancel + 1 }.count .cancel
    let (c, released) := c.retire s
    (c, [.told s.id .cancel, .called s.id (.details cancelDetails),
      .called s.id (.reset .remoteReset)] ++ released)

/-- Takes something to the response side of a stream: `last` says whether it
ends the remote side, `calls` what the request object is told first. -/
def respond (c : Client) (h : Handle) (last : Bool) (calls : List RequestCall)
    (f : Response → Response.Reply) : Client × List Output :=
  let c := if last then { c with streams := (c.streams.close h).1 } else c
  match c.streams.find? h .anyState with
  | none => (c, [])
  | some s =>
    let r := f s.response
    let c := { c with streams := c.streams.modify h .anyState fun s =>
      { s with remoteClosed := s.remoteClosed || last, response := r.state } }
    let c := if r.raised then c.count .highWatermark else c
    let (c, released) := c.settle h r.disposition
    (c, calls.map (.called s.id) ++ r.events.map (.told s.id) ++ released)

/-- Grants credit; this needs explicit flow control and at least one byte. -/
def resume (c : Client) (h : Handle) (credit : Nat) : Client × List Output :=
  if !c.explicit || credit == 0 then (c, [])
  else c.respond h false [] fun s => s.resume credit

/-- One operation. `network` is the network preferred at that moment. -/
def step (network : Network) (c : Client) : Operation → Except Fault (Client × List Output)
  | .start h => c.start h
  | .sendHeaders h block last => .ok (c.sendHeaders network h block last)
  | .sendData h bytes last => .ok (c.send h last (.data bytes last))
  | .sendTrailers h block => .ok (c.send h true (.trailers block))
  | .cancel h => .ok (c.cancel h)
  | .resume h credit => .ok (c.resume h credit)
  | .onHeaders h block last => .ok (c.respond h last [] fun s => s.onHeaders block last)
  | .onData h bytes last => .ok (c.respond h last [] fun s => s.onData bytes last)
  | .onTrailers h block => .ok (c.respond h true [] fun s => s.onTrailers block)
  | .onReset h reason => .ok (c.respond h true [.reset reason] fun s => s.onReset)
  | .sweep => .ok ({ c with retired := [] }, [])

end Client
end HttpExchange
