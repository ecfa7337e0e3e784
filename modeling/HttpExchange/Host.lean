/-
# The host of a client

Everything a task can reach: the client, the live handles, the preferred
network, the pipeline, the applications, and the intake that leads to the
dispatcher. Channel 0 of the intake is the dispatcher's own queue.

A task is run to its end. What the client does on the way takes effect in
order, so that an application which answers an event with a call sees the live
handles and the queues as they are at that moment. What applications are told
and what request objects are called with is noted down.

Key definitions: `Host`, `Host.call`, `Host.emit`, `Host.run`, `Host.turn`.
-/
import HttpExchange.Intake
import HttpExchange.LiveSet
import HttpExchange.Pipeline
import HttpExchange.Task

namespace HttpExchange

inductive Answer
  | nothing
  | flag (b : Bool)
  | status (s : Status)
  | handle (h : Handle)
  | network (n : Network)
  /-- The engine is no longer there to be called. -/
  | gone

inductive Note
  | told (h : Handle) (e : Event)
  | answered (h : Handle) (label : String) (a : Answer)

inductive Trace
  | opened
  | called (c : RequestCall)

/-- The surroundings of a task. -/
structure Host where
  client : Client := {}
  live : LiveSet := {}
  network : Network := .generic
  intake : Intake Task := {}
  pipeline : Pipeline := {}
  /-- The applications, by the serial number of their streams. -/
  applications : Dict Nat Application := {}
  /-- Tasks run on the thread the client belongs to. -/
  onThread : Bool := true
  nextHandle : Int := 1
  /-- Somebody still holds the engine. -/
  attached : Bool := true
  notes : List Note := []
  traces : List (Handle × Trace) := []

namespace Host

/-- Puts a task into the dispatcher's queue. -/
def enqueue (w : Host) (t : Task) : Host × Status :=
  match w.intake.send 0 t with
  | some intake => ({ w with intake := intake }, .ok ())
  | none => (w, .error .terminated)

def post (w : Host) (t : Task) : Host × Status :=
  let (intake, s) := w.intake.post t
  ({ w with intake := intake }, s)

/-- Starts a stream through the engine: the handle is claimed first, and given
back if the task is refused. -/
def startStream (w : Host) (h : Handle) (app : Application) : Host × Status :=
  match w.live.claim h with
  | none => (w, .error (.duplicateStream h))
  | some live =>
    match { w with live := live }.post (.start h app) with
    | (w, .ok ()) => (w, .ok ())
    | (w, .error e) => ({ w with live := w.live.erase h }, .error e)

def resume (w : Host) (h : Handle) (credit : Nat) : Host × Status :=
  if !w.client.explicit then
    (w, .error (.invalidArgument "resume_data requires explicit flow control"))
  else if credit = 0 then
    (w, .error (.invalidArgument "resume_data credit must be positive"))
  else w.post (.operate (.resume h credit))

def call (w : Host) : Call → Host × Answer
  | .enqueue t => let (w, s) := w.enqueue t; (w, .status s)
  | .init =>
    if w.attached then
      ({ w with nextHandle := w.nextHandle + 1 }, .handle ⟨w.nextHandle⟩)
    else (w, .gone)
  | .start h app =>
    if w.attached then let (w, s) := w.startStream h app; (w, .status s) else (w, .gone)
  | .resume h credit =>
    if w.attached then let (w, s) := w.resume h credit; (w, .status s) else (w, .gone)
  | .setNetwork n => if w.attached then ({ w with network := n }, .nothing) else (w, .gone)
  | .network => if w.attached then (w, .network w.network) else (w, .gone)
  | .post t => if w.attached then let (w, s) := w.post t; (w, .status s) else (w, .gone)

/-- Tells the application of a stream, which may answer with calls. -/
def tell (w : Host) (id : StreamId) (e : Event) : Host :=
  let w := { w with notes := w.notes ++ [Note.told id.handle e] }
  match w.applications.find? id.serial with
  | none => w
  | some app =>
    (app.answersTo e.kind).foldl
      (fun w (label, c) =>
        let (w, a) := w.call c
        { w with notes := w.notes ++ [Note.answered id.handle label a] }) w

/-- Puts the parts of a response into the dispatcher's queue, up to the first
that is refused. -/
def enqueueParts (w : Host) (h : Handle) (parts : List ResponsePart) : Host :=
  { w with intake := (w.intake.sendAll 0 (parts.map fun p => .operate (p.operation h))).1 }

def emit (w : Host) : Output → Host
  | .opened id =>
    { w with pipeline := w.pipeline.create id, traces := w.traces ++ [(id.handle, Trace.opened)] }
  | .told id e => w.tell id e
  | .called id c =>
    let (pipeline, parts) := w.pipeline.call id c
    { w with pipeline := pipeline, traces := w.traces ++ [(id.handle, Trace.called c)] }.enqueueParts
      id.handle parts
  | .released h => { w with live := w.live.erase h }

/-- Runs an operation of the client. Only sweeping may happen off the thread. -/
def operate (w : Host) (op : Operation) : Except Fault Host :=
  if !w.onThread && op != .sweep then .error .offThread
  else
    match w.client.step w.network op with
    | .error f => .error f
    | .ok (client, outputs) => .ok (outputs.foldl emit { w with client := client })

/-- Runs a task. Termination and holding are up to the engine. -/
def run (w : Host) : Task → Except Fault (Host × Answer)
  | .start h app =>
    let w' := { w with applications := w.applications.insert w.client.nextSerial app }
    (w'.operate (.start h)).map fun w => (w, .nothing)
  | .operate op => (w.operate op).map fun w => (w, .nothing)
  | .has h => .ok (w, .flag (w.client.streams.contains h .anyState))
  | .claim h =>
    match w.live.claim h with
    | some live => .ok ({ w with live := live }, .flag true)
    | none => .ok (w, .flag false)
  | .release h =>
    match w.live.release h with
    | some live => .ok ({ w with live := live }, .flag true)
    | none => .ok (w, .flag false)
  | .crash => .error .crash
  | .terminate => .ok (w, .nothing)
  | .hold => .ok (w, .nothing)

/-- One turn of the dispatcher: a task, and then the retired streams go. -/
def turn (w : Host) (t : Task) : Except Fault Host := do
  let (w, _) ← w.run t
  w.operate .sweep

/-- Sends a part of a response for the stream last started under `h`; none if
there was never one. -/
def encode (w : Host) (h : Handle) (part : ResponsePart) : Option (Host × Status) :=
  if w.pipeline.latest.contains h then some (w.enqueue (.operate (part.operation h))) else none

def forget (w : Host) : Host := { w with notes := [], traces := [] }

end Host
end HttpExchange
