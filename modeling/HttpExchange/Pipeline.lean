/-
# The pipeline

The pipeline keeps a request object for every stream that was started, also
after the stream has ended, and knows which stream was last started under each
handle. It is either the loopback, which answers, or one that does nothing.
-/
import HttpExchange.Loopback

namespace HttpExchange

/-- The request objects by serial number, and the last stream of each handle. -/
structure Pipeline where
  answers : Bool := false
  latest : Dict Handle StreamId := {}
  requests : Dict Nat Loopback := {}

namespace Pipeline

instance : Inhabited Pipeline := ⟨{}⟩

def create (p : Pipeline) (id : StreamId) : Pipeline :=
  { p with
    latest := p.latest.insert id.handle id
    requests := if p.answers then p.requests.insert id.serial {} else p.requests }

/-- Calls the request object of a stream; says what it sends in return. -/
def call (p : Pipeline) (id : StreamId) (c : RequestCall) : Pipeline × List ResponsePart :=
  match p.requests.find? id.serial with
  | none => (p, [])
  | some r =>
    let (r, parts) := r.call c
    ({ p with requests := p.requests.insert id.serial r }, parts)

end Pipeline
end HttpExchange
