/-
# Tasks and applications

A task is a piece of work that a dispatcher runs in one turn. An application
receives the events of a stream and may answer an event with calls of its own;
an application may in turn be part of a task, as what a new stream reports to.
-/
import HttpExchange.Client

namespace HttpExchange

inductive EventKind
  | headers
  | data
  | trailers
  | error
  | complete
  | cancel
  deriving DecidableEq, Repr

def Event.kind : Event → EventKind
  | headers _ _ => .headers
  | data _ _ => .data
  | trailers _ => .trailers
  | error _ => .error
  | complete => .complete
  | cancel => .cancel

mutual

/-- A piece of work for a dispatcher. -/
inductive Task
  | start (h : Handle) (app : Application)
  /-- Any operation of the client; a stream started so reports to nobody. -/
  | operate (op : Operation)
  | has (h : Handle)
  | claim (h : Handle)
  | release (h : Handle)
  /-- Give up, and take the dispatcher down. -/
  | crash
  | terminate
  /-- Keep the dispatcher from going on. -/
  | hold

/-- What an application answers an event of each kind with: calls in order, each
with the label it is noted under. -/
inductive Application
  | mk (answers : List (EventKind × List (String × Call)))

inductive Call
  /-- Put a task straight into the dispatcher's queue. -/
  | enqueue (t : Task)
  | init
  | start (h : Handle) (app : Application)
  | resume (h : Handle) (credit : Nat)
  | setNetwork (n : Network)
  | network
  | post (t : Task)

end

instance : Inhabited Task := ⟨.crash⟩

def Application.silent : Application := .mk []

def Application.answersTo : Application → EventKind → List (String × Call)
  | .mk answers, k => (answers.filter fun a => a.1 == k).flatMap (·.2)

end HttpExchange
