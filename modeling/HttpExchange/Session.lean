/-
# Sessions

A session drives a client by hand: its operations are called directly or put
into the queue, and the queue is run a number of turns at a time. A fault in a
turn ends that turn only.
-/
import HttpExchange.Host

namespace HttpExchange
namespace Session

/-- A client with an open queue and a network from the configuration. `onThread`
is false if the queue belongs to thread 1 instead of the caller's, thread 0. -/
def start (config : Config) (answers onThread : Bool) (draws : Draws) : Host where
  client := Client.ofConfig config draws
  network := config.network.preferred
  intake := { channels := [{}], target := some ⟨0, if onThread then 0 else 1⟩ }
  pipeline := { answers := answers }
  onThread := onThread

inductive Step
  | direct (t : Task)
  | encode (h : Handle) (part : ResponsePart)
  /-- Call the request object last made for a handle, past the client. -/
  | decode (h : Handle) (c : RequestCall)
  | run (turns : Nat)
  | post (t : Task)
  | network (n : Network)
  /-- The receiver of the queue goes. -/
  | closeQueue

inductive Reply
  | answer (a : Answer)
  | fault (f : Fault)
  /-- No stream was ever started under the handle. -/
  | noEncoder
  /-- The loopback has no request object for the handle. -/
  | noRequest
  | turns (outcomes : List (Option Fault))

/-- Runs up to a number of turns. After a fault the host is as it was before
the task, except that the task is gone. -/
def runTurns : Nat → Host → Host × List (Option Fault)
  | 0, w => (w, [])
  | turns + 1, w =>
    match w.intake.next? 0 with
    | none => (w, [])
    | some (t, intake) =>
      let w := { w with intake := intake }
      match w.turn t with
      | .ok w => let (w, outcomes) := runTurns turns w; (w, none :: outcomes)
      | .error f => let (w, outcomes) := runTurns turns w; (w, some f :: outcomes)

def decode (w : Host) (h : Handle) (c : RequestCall) : Option Host := do
  let id ← w.pipeline.latest.find? h
  let _ ← w.pipeline.requests.find? id.serial
  let (pipeline, parts) := w.pipeline.call id c
  return { w with pipeline := pipeline }.enqueueParts h parts

def perform (w : Host) : Step → Host × Reply
  | .direct t =>
    match w.run t with
    | .ok (w, a) => (w, .answer a)
    | .error f => (w, .fault f)
  | .encode h part =>
    match w.encode h part with
    | some (w, s) => (w, .answer (.status s))
    | none => (w, .noEncoder)
  | .decode h c =>
    match decode w h c with
    | some w => (w, .answer .nothing)
    | none => (w, .noRequest)
  | .run turns => let (w, outcomes) := runTurns turns w; (w, .turns outcomes)
  | .post t => let (w, s) := w.enqueue t; (w, .answer (.status s))
  | .network n => ({ w with network := n }, .answer .nothing)
  | .closeQueue => ({ w with intake := w.intake.closeChannel 0 }, .answer .nothing)

end Session
end HttpExchange
