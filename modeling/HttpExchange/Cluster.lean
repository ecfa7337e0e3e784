/-
# Clusters

A request is sent to one of eighteen clusters. The scheme and the protocol that
the request asks for choose a family, the preferred network a column of it, and
one bit between the primary and the alternate partition.
-/
import HttpExchange.Network

namespace HttpExchange

inductive Protocol
  | http1
  | http2
  deriving DecidableEq, Repr

/-- Only the two exact spellings are protocols. -/
def Protocol.ofText? (s : String) : Option Protocol :=
  if s = "http1" then some .http1
  else if s = "http2" then some .http2
  else none

inductive Family
  /-- Encrypted, the protocol negotiated. -/
  | base
  /-- Encrypted, the second protocol version forced. -/
  | h2
  /-- Not encrypted. -/
  | clearText
  deriving DecidableEq, Repr

namespace Family

/-- Plain `http` always goes unencrypted; a hint counts for the rest. -/
def ofRequest (scheme : Option String) (protocol : Option Protocol) : Family :=
  if scheme = some "http" then .clearText
  else if protocol = some .http2 then .h2
  else .base

def mark : Family → String
  | base => ""
  | h2 => "_h2"
  | clearText => "_clear"

end Family

/-- What the name of a network contributes to the name of a cluster. -/
def Network.mark : Network → String
  | .generic => ""
  | .wlan => "_wlan"
  | .wwan => "_wwan"

def clusterName (family : Family) (network : Network) (alternate : Bool) : String :=
  "base" ++ network.mark ++ family.mark ++ (if alternate then "_alt" else "")

def clusterFor (scheme : Option String) (protocol : Option Protocol) (network : Network)
    (alternate : Bool) : String :=
  clusterName (Family.ofRequest scheme protocol) network alternate

end HttpExchange
