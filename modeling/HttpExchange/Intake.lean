/-
# The intake of a dispatcher

Work can be handed to an engine before its dispatcher runs. The intake keeps it
in order, passes it on when a dispatcher is installed, and passes later work
straight through. A dispatcher is reached by a channel, and a channel whose
receiver is gone refuses work. Once terminated, the intake takes no more; what
it kept until then still goes to the next dispatcher.

Key definitions: `Channel`, `Intake`, `Intake.start`, `Intake.post`,
`Intake.terminate`, `Intake.abandon`.
-/
import HttpExchange.CallError

namespace HttpExchange

/-- A queue that leads to one dispatcher. -/
structure Channel (α : Type) where
  pending : List α := []
  isOpen : Bool := true
  deriving Inhabited

/-- A dispatcher: the number of its channel, and the number of the thread it
belongs to. -/
structure Target where
  channel : Nat
  thread : Nat
  deriving DecidableEq, Repr

/-- The work that waits, the installed dispatcher, and all channels. -/
structure Intake (α : Type) where
  waiting : List α := []
  target : Option Target := none
  terminated : Bool := false
  channels : List (Channel α) := []
  deriving Inhabited

namespace Channel

variable {α : Type}

def send (c : Channel α) (a : α) : Option (Channel α) :=
  if c.isOpen then some { c with pending := c.pending ++ [a] } else none

/-- The receiver goes, and with it what was in the queue. -/
def close (_ : Channel α) : Channel α := { pending := [], isOpen := false }

def next? (c : Channel α) : Option (α × Channel α) :=
  match c.pending with
  | [] => none
  | a :: rest => some (a, { c with pending := rest })

end Channel

namespace Intake

variable {α : Type}

/-- Sends work on channel `n`; fails if the channel refuses it. -/
def send (i : Intake α) (n : Nat) (a : α) : Option (Intake α) := do
  let c ← i.channels[n]?
  let c ← c.send a
  return { i with channels := i.channels.set n c }

/-- Sends a list of work in order, up to the first refusal. -/
def sendAll (i : Intake α) (n : Nat) : List α → Intake α × Bool
  | [] => (i, true)
  | a :: rest =>
    match i.send n a with
    | some i => i.sendAll n rest
    | none => (i, false)

def addChannel (i : Intake α) (c : Channel α := {}) : Intake α :=
  { i with channels := i.channels ++ [c] }

/-- Installs a dispatcher. What waits goes to it first, even after termination;
if it refuses, the rest is lost and the intake is terminated. -/
def start (i : Intake α) (t : Target) : Intake α :=
  match i.sendAll t.channel i.waiting with
  | (i, true) =>
    if i.terminated then { i with waiting := [] } else { i with waiting := [], target := some t }
  | (i, false) => { i with waiting := [], terminated := true }

/-- Takes one piece of work, or refuses it. -/
def post (i : Intake α) (a : α) : Intake α × Status :=
  if i.terminated then (i, .error .terminated)
  else
    match i.target with
    | some t =>
      match i.send t.channel a with
      | some i => (i, .ok ())
      | none => (i, .error .terminated)
    | none => ({ i with waiting := i.waiting ++ [a] }, .ok ())

/-- Takes no more work. What waits is kept for `start`. -/
def terminate (i : Intake α) : Intake α := { i with terminated := true, target := none }

/-- Takes no more work and drops what waits. -/
def abandon (i : Intake α) : Intake α := { i.terminate with waiting := [] }

def isRunning (i : Intake α) : Bool := i.target.isSome

def belongsTo (i : Intake α) (thread : Nat) : Bool :=
  match i.target with
  | some t => t.thread == thread
  | none => false

def closeChannel (i : Intake α) (n : Nat) : Intake α :=
  { i with channels := i.channels.modify n Channel.close }

def next? (i : Intake α) (n : Nat) : Option (α × Intake α) := do
  let c ← i.channels[n]?
  let (a, c) ← c.next?
  return (a, { i with channels := i.channels.set n c })

def pending (i : Intake α) (n : Nat) : List α :=
  match i.channels[n]? with
  | some c => c.pending
  | none => []

theorem next?_eq_none {i : Intake α} {n : Nat} : i.next? n = none ↔ i.pending n = [] := by
  unfold next? pending Channel.next?
  cases i.channels[n]? with
  | none => exact iff_of_true rfl rfl
  | some c => cases hc : c.pending <;> simp [hc]

end Intake
end HttpExchange
