/-
# The shutdown signal

A sender and any number of receivers. Only the last signal is retained: a
receiver that missed signals is told how many were overwritten and then stands
at the one retained. A receiver sees only signals sent after it subscribed, and
a signal that nobody listens to is not sent.
-/

namespace HttpExchange

/-- The signals sent so far, where each receiver stands, and whether the sender
is still there. A receiver that is gone stands nowhere. -/
structure Broadcast where
  sent : Nat := 0
  receivers : List (Option Nat) := []
  hasSender : Bool := true
  deriving DecidableEq, Repr, Inhabited

namespace Broadcast

inductive Receipt
  | signal
  | empty
  /-- Nothing is left and the sender is gone. -/
  | closed
  /-- Some signals were overwritten. -/
  | lagged (missed : Nat)
  deriving DecidableEq, Repr

/-- A new receiver, the next in number. -/
def subscribe (b : Broadcast) : Broadcast := { b with receivers := b.receivers ++ [some b.sent] }

def listening (b : Broadcast) : Nat := b.receivers.countP Option.isSome

/-- Sends the signal; says whether anybody listens. -/
def trigger (b : Broadcast) : Broadcast × Bool :=
  if b.listening = 0 then (b, false) else ({ b with sent := b.sent + 1 }, true)

def leave (b : Broadcast) (i : Nat) : Broadcast := { b with receivers := b.receivers.set i none }

def finish (b : Broadcast) : Broadcast := { b with hasSender := false }

/-- Receiver `i` takes what there is for it; none if there is no such receiver. -/
def receive (b : Broadcast) (i : Nat) : Option (Broadcast × Receipt) :=
  match b.receivers[i]? with
  | some (some place) =>
    if place = b.sent then some (b, if b.hasSender then .empty else .closed)
    else if place + 1 = b.sent then
      some ({ b with receivers := b.receivers.set i (some b.sent) }, .signal)
    else
      some ({ b with receivers := b.receivers.set i (some (b.sent - 1)) },
        .lagged (b.sent - 1 - place))
  | _ => none

end Broadcast
end HttpExchange
