/-
# Stream handles

A handle is the number by which an application names one exchange of a request
and its response. A handle may be used again once its stream has ended, so the
streams that went by it are told apart by a serial number: a `StreamId` names
one stream for good.
-/

namespace HttpExchange

/-- The number an application gives to one exchange. -/
structure Handle where
  id : Int
  deriving DecidableEq, Repr, Inhabited

def Handle.render (h : Handle) : String := "S" ++ toString h.id

/-- One stream: its handle and its number among all streams started so far. -/
structure StreamId where
  handle : Handle
  serial : Nat
  deriving DecidableEq, Repr, Inhabited

abbrev Bytes := List UInt8

end HttpExchange
