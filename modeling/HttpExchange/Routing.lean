/-
# Routing of requests

Before request headers go to the pipeline they are rewritten: the hint for a
protocol is taken out, and the cluster and the forwarded protocol are put at the
end in place of anything the application wrote there.
-/
import HttpExchange.Cluster
import HttpExchange.Headers

namespace HttpExchange
namespace Headers

def clusterName : String := "x-envoy-mobile-cluster"

def protocolName : String := "x-envoy-mobile-upstream-protocol"

def forwardedName : String := "x-forwarded-proto"

/-- The protocol a request asks for; an unknown one is no hint. -/
def protocolHint (b : Headers) : Option Protocol := (b.get? protocolName).bind Protocol.ofText?

/-- The headers as the pipeline gets them. -/
def routed (b : Headers) (network : Network) (alternate : Bool) : Headers :=
  ((b.remove protocolName).set clusterName
    (clusterFor b.scheme? b.protocolHint network alternate)).set forwardedName "https"

end Headers
end HttpExchange
