/-
# The engine

An engine is a client on a dispatcher thread of its own, behind a facade that
any thread may call. Calls are queued, in the intake until the dispatcher has
been built and in its channel afterwards, and the dispatcher runs them one by
one. When the engine terminates, its intake refuses calls from then on, and the
dispatcher ends once its queue is empty. A fault takes the dispatcher down at
once, and what was queued is lost.

Key definitions: `Engine`, `Engine.start`, `Engine.turn`, `Engine.settle`,
`Engine.terminate`, `Engine.perform`.
-/
import HttpExchange.Host
import HttpExchange.Text.Utf8

namespace HttpExchange

/-- Where the dispatcher thread is. -/
inductive Phase
  /-- It builds the client; calls wait in the intake. -/
  | building
  | serving
  /-- A task keeps it from going on. -/
  | held
  | ended
  deriving DecidableEq, Repr

structure Engine where
  host : Host
  phase : Phase
  signalled : Bool := false

namespace Engine

inductive StartError
  | refused (e : CallError)
  | fault (f : Fault)
  deriving DecidableEq, Repr

/-- The fault a thread name makes, if any: the system takes no zero byte. -/
def threadNameFault? (name : String) : Option Fault :=
  let bytes := Text.Utf8.encode name
  if (0 : UInt8) ∈ bytes then some (.threadName (bytes.idxOf 0) bytes) else none

/-- Starts an engine whose dispatcher thread is about to build its client. -/
def start (config : Config) (answers : Bool) (draws : Draws) :
    Except StartError Engine :=
  if config.issues ≠ [] then .error (.refused (.invalidConfig config.issues))
  else
    match threadNameFault? config.dispatcher.threadName with
    | some f => .error (.fault f)
    | none =>
      .ok {
        host := {
          client := Client.ofConfig config draws
          network := config.network.preferred
          pipeline := { answers := answers } }
        phase := .building }

/-- The dispatcher thread, which is thread 1, has built the client and takes
over what the intake kept. -/
def build (e : Engine) : Engine :=
  { e with
    host := { e.host with intake := (e.host.intake.addChannel {}).start ⟨0, 1⟩ }
    phase := .serving }

/-- The dispatcher leaves its loop. -/
def exit (e : Engine) : Engine :=
  { e with
    host := { e.host with intake := (e.host.intake.closeChannel 0).terminate }
    phase := .ended }

/-- The dispatcher is taken down by a fault. -/
def collapse (e : Engine) : Engine :=
  { e with
    host := { e.host with intake := e.host.intake.closeChannel 0 }
    phase := .ended }

/-- The first step of termination: calls are refused from now on. -/
def refuse (e : Engine) : Engine :=
  { e with host := { e.host with intake := e.host.intake.terminate } }

/-- The second step of termination: the dispatcher is told to end. -/
def signal (e : Engine) : Engine := { e with signalled := true }

def runTask (e : Engine) : Task → Engine
  | .hold => { e with phase := .held }
  | .terminate => e.refuse.signal
  | t =>
    match e.host.turn t with
    | .ok w => { e with host := w }
    | .error _ => e.collapse

/-- One turn of the dispatcher's loop, if there is anything to do: a task, or,
when there is none left, the end that was signalled. -/
def turn (e : Engine) : Option Engine :=
  match e.phase with
  | .serving =>
    match e.host.intake.next? 0 with
    | some (t, intake) => some ({ e with host := { e.host with intake := intake } }.runTask t)
    | none => if e.signalled then some e.exit else none
  | _ => none

/-- Lets the dispatcher go on until it is idle, held or ended, for at most
`turns` turns. -/
def settle : Nat → Engine → Engine
  | 0, e => e
  | turns + 1, e =>
    match e.turn with
    | some e => settle turns e
    | none => e

/-- Lets a dispatcher go on that is being built or held. -/
def letGo (e : Engine) : Engine :=
  match e.phase with
  | .building => e.build
  | .held => { e with phase := .serving }
  | _ => e

def isHeld (e : Engine) : Bool := e.phase == .building || e.phase == .held

/-- Terminates the engine and waits for the dispatcher; one that is held is let
go once the engine refuses calls. -/
def terminate (turns : Nat) (e : Engine) : Engine := e.refuse.signal.letGo.settle turns

inductive Step
  | call (c : Call)
  | encode (h : Handle) (part : ResponsePart)
  /-- Hold the dispatcher once everything before is done. -/
  | pause
  | go
  | terminate
  /-- Give the engine up, which terminates it. -/
  | drop

inductive Reply
  | answer (a : Answer)
  /-- No stream was ever started under the handle. -/
  | noEncoder
  | dropped

/-- One step, and what the dispatcher does until it is idle, held or ended. -/
def perform (turns : Nat) (e : Engine) : Step → Engine × Reply
  | .call c =>
    let (w, a) := e.host.call c
    ({ e with host := w }.settle turns, .answer a)
  | .encode h part =>
    match e.host.encode h part with
    | some (w, s) => ({ e with host := w }.settle turns, .answer (.status s))
    | none => (e, .noEncoder)
  | .pause =>
    if e.isHeld then (e, .answer .nothing)
    else
      let (w, s) := e.host.post .hold
      ({ e with host := w }.settle turns, .answer (.status s))
  | .go => (e.letGo.settle turns, .answer .nothing)
  | .terminate => (e.terminate turns, .answer .nothing)
  | .drop => ({ e with host := { e.host with attached := false } }.terminate turns, .dropped)

end Engine
end HttpExchange
