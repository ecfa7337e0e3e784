/-
# One exchange on the command line

The command line sends one request through an engine over the loopback and
prints what its application is told. The application reads events one by one
from an inbox into which the dispatcher puts them; with explicit flow control it
grants credit after every event that is not the last.

The two sides move on independently: `deliver` is a turn of the dispatcher,
`read` an event taken from the inbox. `run` lets the reader go first.

Key definitions: `Cli.Exchange`, `Cli.Exchange.begin`, `Cli.Exchange.deliver`,
`Cli.Exchange.read`, `Cli.Exchange.run`, `Event.render`.
-/
import HttpExchange.Cli.Options
import HttpExchange.Engine
import HttpExchange.Text.Quoted

namespace HttpExchange

def Event.render : Event → String
  | headers b last => "on_headers(end_stream=" ++ toString last ++ "): " ++ b.render
  | data bytes last =>
    "on_data(end_stream=" ++ toString last ++ "): " ++ Text.quote (Text.Utf8.decodeLoosely bytes)
  | trailers b => "on_trailers: " ++ b.render
  | error e =>
    let message := match e.message with
      | some m => "Some(" ++ Text.quote m ++ ")"
      | none => "None"
    "on_error: code=" ++ e.code.name ++ " message=" ++ message
      ++ " attempt_count=" ++ toString e.attempts
  | complete => "on_complete"
  | cancel => "on_cancel"

def Event.wantsCredit : Event → Bool
  | headers _ last => !last
  | data _ last => !last
  | _ => false

def Event.isFinal : Event → Bool
  | error _ => true
  | complete => true
  | cancel => true
  | _ => false

namespace Cli

inductive Ending
  | finished
  | refused (e : CallError)
  | timedOut
  deriving DecidableEq, Repr

structure Exchange where
  engine : Engine
  handle : Handle
  credit : Nat
  inbox : List Event := []
  /-- What was printed, the last line first. -/
  printed : List String := []
  ending : Option Ending := none

namespace Exchange

def request (o : Options) : Headers :=
  let block := Headers.ofList [(":method", "POST"), (":scheme", o.scheme),
    (":authority", "loopback.local"), (":path", "/echo")]
  match o.errorCode with
  | some n => block.add Loopback.errorName (toString n)
  | none => block

/-- A call on the engine, made by the reader. A refusal ends the exchange. -/
def call (x : Exchange) (c : Call) : Exchange :=
  if x.ending.isSome then x
  else
    match x.engine.host.call c with
    | (w, .status (.error e)) => { x with engine := { x.engine with host := w }, ending := some (.refused e) }
    | (w, _) => { x with engine := { x.engine with host := w } }

/-- The first calls: a stream is started under a fresh handle and the whole
request sent. -/
def begin (engine : Engine) (o : Options) : Exchange :=
  match engine.host.call .init with
  | (w, .handle h) =>
    let x : Exchange := { engine := { engine with host := w }, handle := h, credit := o.credit }
    ((x.call (.start h .silent)).call (.post (.operate (.sendHeaders h (request o) false)))).call
      (.post (.operate (.sendData h (Text.Utf8.encode o.body) true)))
  | (w, _) =>
    { engine := { engine with host := w }, handle := ⟨0⟩, credit := o.credit, ending := some .timedOut }

def heard? : Note → Option Event
  | .told _ e => some e
  | .answered _ _ _ => none

/-- A turn of the dispatcher; what the application is told goes to the inbox. -/
def deliver (x : Exchange) : Option Exchange :=
  x.engine.turn.map fun e =>
    { x with
      engine := { e with host := e.host.forget }
      inbox := x.inbox ++ e.host.notes.filterMap heard? }

def lines (x : Exchange) : List String := x.printed.reverse

def explicit (x : Exchange) : Bool := x.engine.host.client.explicit

/-- The reader takes an event from the inbox, prints it and grants credit. -/
def read (x : Exchange) : Option Exchange :=
  match x.ending, x.inbox with
  | none, e :: inbox =>
    let x := { x with inbox := inbox, printed := e.render :: x.printed }
    if e.isFinal then some { x with ending := some .finished }
    else if x.explicit && e.wantsCredit then some (x.call (.resume x.handle x.credit))
    else some x
  | _, _ => none

/-- Lets the two sides go on until the reader is done, for at most `moves`
moves; if neither can move the reader waits in vain. -/
def run : Nat → Exchange → Exchange
  | 0, x => { x with ending := x.ending.or (some .timedOut) }
  | moves + 1, x =>
    if x.ending.isSome then x
    else
      match x.read with
      | some x => run moves x
      | none =>
        match x.deliver with
        | some x => run moves x
        | none => { x with ending := some .timedOut }

end Exchange
end Cli
end HttpExchange
