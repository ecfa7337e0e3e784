/-
# The stream registry

The registry keeps streams in two buckets: open ones, and those whose remote
side has ended. A lookup searches the open bucket alone or both. Taking a
stream out of either bucket is what retires it.
-/
import HttpExchange.Fault
import HttpExchange.Dict

namespace HttpExchange

/-- The buckets a lookup searches. -/
inductive Scope
  | openOnly
  | anyState
  deriving DecidableEq, Repr

/-- Streams by handle, in two buckets. -/
structure Registry (σ : Type) where
  opened : Dict Handle σ := {}
  closed : Dict Handle σ := {}

namespace Registry

variable {σ : Type}

instance : Inhabited (Registry σ) := ⟨{}⟩

def contains (r : Registry σ) (h : Handle) : Scope → Bool
  | .openOnly => r.opened.contains h
  | .anyState => r.opened.contains h || r.closed.contains h

/-- The stream under a handle; the open bucket is searched first. -/
def find? (r : Registry σ) (h : Handle) : Scope → Option σ
  | .openOnly => r.opened.find? h
  | .anyState =>
    match r.opened.find? h with
    | some s => some s
    | none => r.closed.find? h

/-- Puts a new stream into the open bucket; a handle that is there already is a fault. -/
def insert (r : Registry σ) (h : Handle) (s : σ) : Except Fault (Registry σ) :=
  if r.contains h .anyState then .error (.registeredTwice h)
  else .ok { r with opened := r.opened.insert h s }

/-- Changes the stream that `find?` finds. -/
def modify (r : Registry σ) (h : Handle) (scope : Scope) (f : σ → σ) : Registry σ :=
  if r.opened.contains h then { r with opened := r.opened.modify h f }
  else
    match scope with
    | .openOnly => r
    | .anyState => { r with closed := r.closed.modify h f }

/-- Moves an open stream to the closed bucket; says whether there was one. -/
def close (r : Registry σ) (h : Handle) : Registry σ × Bool :=
  match r.opened.find? h with
  | some s => (⟨r.opened.erase h, r.closed.insert h s⟩, true)
  | none => (r, false)

/-- Takes the stream out of whichever bucket holds it. -/
def remove (r : Registry σ) (h : Handle) : Option (σ × Registry σ) :=
  match r.opened.find? h with
  | some s => some (s, { r with opened := r.opened.erase h })
  | none =>
    match r.closed.find? h with
    | some s => some (s, { r with closed := r.closed.erase h })
    | none => none

def openCount (r : Registry σ) : Nat := r.opened.size

/-- How many streams have been closed by the remote side and not retired. -/
def closedCount (r : Registry σ) : Nat := r.closed.size

end Registry
end HttpExchange
