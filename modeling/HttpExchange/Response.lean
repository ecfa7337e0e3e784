/-
# The response side of a stream

What one stream makes of the response that arrives for it, and what it tells
the application. Without flow control everything is passed on as it comes. With
explicit flow control a chunk of data is passed on only against credit, and uses
all of it up; data, trailers and errors that find none wait for the next grant.

A response marked as an error is not passed on at all: its end is reported as
that error. The last thing an application hears is one of `complete`, `error`
and `cancel`; a reply that holds one of the first two says so in its
disposition.

Key definitions: `Event`, `Disposition`, `Response`, `Response.Reply`,
`Response.onHeaders`, `Response.onData`, `Response.onTrailers`,
`Response.onReset`, `Response.resume`.
-/
import HttpExchange.StreamError
import HttpExchange.Buffer

namespace HttpExchange

/-- What an application is told about one of its streams. -/
inductive Event
  | headers (block : Headers) (last : Bool)
  | data (bytes : Bytes) (last : Bool)
  | trailers (block : Headers)
  | error (e : StreamError)
  | complete
  | cancel
  deriving DecidableEq, Repr

/-- Whether a stream has ended, as far as its response goes. -/
inductive Disposition
  | unfinished
  /-- The application was told that the response is complete. -/
  | completed (success : Bool)
  | failed
  deriving DecidableEq, Repr

def Disposition.isFinal : Disposition → Bool
  | unfinished => false
  | completed _ => true
  | failed => true

structure Response where
  explicit : Bool
  high : Nat
  /-- The application has been given response headers. -/
  headersForwarded : Bool := false
  /-- The last headers given had a status from 200 to 299. -/
  success : Bool := false
  /-- The error the stream will end in. -/
  error : Option StreamError := none
  /-- The error waits for credit. -/
  errorDeferred : Bool := false
  /-- The bytes the application is ready to take. -/
  credit : Nat := 0
  buffer : Option Buffer := none
  trailers : Option Headers := none
  /-- The response has ended on the remote side. -/
  endReceived : Bool := false
  /-- The application has been given the end of the response. -/
  endForwarded : Bool := false
  deriving DecidableEq, Repr

namespace Response

/-- What an operation leaves behind: the new state, what the application is
told, whether the stream has ended, and whether its buffer rose above the high
mark. -/
structure Reply where
  state : Response
  events : List Event := []
  disposition : Disposition := .unfinished
  raised : Bool := false
  deriving DecidableEq, Repr

def waiting (s : Response) : Bytes :=
  match s.buffer with
  | some b => b.bytes
  | none => []

def receiveEnd (s : Response) (last : Bool) : Response :=
  if last then { s with endReceived := true } else s

def deliverError (s : Response) : Reply where
  state := { s with error := none, errorDeferred := false }
  events := [.error (s.error.getD .reset)]
  disposition := .failed

/-- Ends the stream in its error, or puts that off while an application that
has seen headers holds no credit. -/
def fail (s : Response) : Reply :=
  if s.explicit && s.headersForwarded && s.credit == 0 then
    { state := { s with errorDeferred := true } }
  else s.deliverError

/-- Passes data on; this uses up all credit. -/
def forwardData (s : Response) (bytes : Bytes) (last : Bool) : Reply :=
  if last then
    { state := { s with credit := 0, endForwarded := true }
      events := [.data bytes true, .complete]
      disposition := .completed s.success }
  else { state := { s with credit := 0 }, events := [.data bytes false] }

/-- Passes trailers on, which ends the response. -/
def forwardTrailers (s : Response) (block : Headers) : Reply where
  state := { s with endForwarded := true }
  events := [.trailers block, .complete]
  disposition := .completed s.success

/-- Puts data behind what waits already. -/
def hold (s : Response) (bytes : Bytes) : Reply :=
  let (buffer, crossing) := (s.buffer.getD { high := s.high }).push bytes
  { state := { s with buffer := some buffer }, raised := crossing == some .aboveHigh }

def Reply.after (r : Reply) (earlier : List Event) : Reply :=
  { r with events := earlier ++ r.events }

def onHeaders (s : Response) (block : Headers) (last : Bool) : Reply :=
  let s := s.receiveEnd last
  match StreamError.ofHeaders? block with
  | some e =>
    let s := { s with error := some e }
    if last then s.fail else { state := s }
  | none =>
    let success := match block.status? with
      | some n => 200 ≤ n && n < 300
      | none => false
    let s := { s with success := success, headersForwarded := true }
    if last then
      { state := { s with endForwarded := true }
        events := [.headers block true, .complete]
        disposition := .completed success }
    else { state := s, events := [.headers block false] }

/-- Data has arrived. The body of a marked response is no part of its error. -/
def onData (s : Response) (bytes : Bytes) (last : Bool) : Reply :=
  let s := s.receiveEnd last
  if s.error.isSome then
    if last then s.fail else { state := s }
  else if bytes.isEmpty && !last then { state := s }
  else if !s.explicit then s.forwardData bytes last
  else if s.waiting.isEmpty && 0 < s.credit then
    if bytes.length ≤ s.credit then s.forwardData bytes last
    else
      let first := s.forwardData (bytes.take s.credit) false
      (first.state.hold (bytes.drop s.credit)).after first.events
  else s.hold bytes

/-- Trailers have arrived, which is the end of the response. -/
def onTrailers (s : Response) (block : Headers) : Reply :=
  let s := s.receiveEnd true
  if s.error.isSome then s.fail
  else if s.explicit && (s.credit == 0 || !s.waiting.isEmpty) then
    { state := { s with trailers := some block } }
  else s.forwardTrailers block

/-- The stream was reset; this counts only before the end of the response. An
error that is known already stays. -/
def onReset (s : Response) : Reply :=
  if s.endReceived then { state := s }
  else { s with error := some (s.error.getD .reset) : Response }.fail

/-- The end of the response has arrived bare and has not been passed on. -/
def endPending (s : Response) : Bool :=
  s.endReceived && !s.endForwarded && s.trailers.isNone

def drain (s : Response) (most : Nat) : Bytes × Response :=
  match s.buffer with
  | some b => ((b.drain most).1, { s with buffer := some (b.drain most).2.1 })
  | none => ([], s)

/-- Passes on what follows the data: trailers, or else an error put off. -/
def forwardRest (s : Response) : Reply :=
  if !s.waiting.isEmpty then { state := s }
  else
    match s.trailers with
    | some block => { s with trailers := none : Response }.forwardTrailers block
    | none => if s.errorDeferred then s.deliverError else { state := s }

/-- The application grants credit for `credit` bytes; an earlier grant lapses. -/
def resume (s : Response) (credit : Nat) : Reply :=
  let s := { s with credit := credit }
  if !s.waiting.isEmpty || s.endPending then
    let (chunk, s) := s.drain credit
    let r := s.forwardData chunk (s.endReceived && s.trailers.isNone && s.waiting.isEmpty)
    if r.disposition.isFinal then r else r.state.forwardRest.after r.events
  else s.forwardRest

end Response
end HttpExchange
