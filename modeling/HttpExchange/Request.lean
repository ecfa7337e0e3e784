/-
# The request side of a stream

The pipeline makes one request object for every stream. These are the calls the
client makes on it.
-/
import HttpExchange.Headers
import HttpExchange.Handle

namespace HttpExchange

inductive ResetReason
  | localReset
  | remoteReset
  | connectionFailure
  | connectionTermination
  | overflow
  deriving DecidableEq, Repr

inductive RequestCall
  | headers (block : Headers) (last : Bool)
  | data (bytes : Bytes) (last : Bool)
  | trailers (block : Headers)
  | details (text : String)
  | reset (reason : ResetReason)
  deriving DecidableEq, Repr

end HttpExchange
