/-
# Preferred network

Networks are told apart by their last physical link. The application reports
the network it prefers; requests sent afterwards are routed for it.
-/
import HttpExchange.Text.Ascii

namespace HttpExchange

inductive Network
  /-- Anything whose characteristics are unknown. -/
  | generic
  /-- Local wireless networks. -/
  | wlan
  /-- Mobile phone networks. -/
  | wwan
  deriving DecidableEq, Repr, Inhabited

namespace Network

/-- The number of a network, its column in the catalog of clusters. -/
def index : Network → Nat
  | generic => 0
  | wlan => 1
  | wwan => 2

def ofIndex? : Nat → Option Network
  | 0 => some generic
  | 1 => some wlan
  | 2 => some wwan
  | _ => none

def name : Network → String
  | generic => "generic"
  | wlan => "wlan"
  | wwan => "wwan"

/-- The network of a given name, spelled exactly. -/
def ofName? (s : String) : Option Network :=
  if s = "generic" then some generic
  else if s = "wlan" then some wlan
  else if s = "wwan" then some wwan
  else none

/-- The network of a given name in any case, or what is wrong with the name. -/
def ofText (s : String) : Except String Network :=
  match ofName? (Text.lower s) with
  | some n => .ok n
  | none => .error ("unknown network \x60" ++ Text.lower s ++ "\x60")

theorem ofIndex?_eq_some_iff (k : Nat) (n : Network) : ofIndex? k = some n ↔ k = n.index := by
  constructor
  · intro h
    match k, h with
    | 0, h => cases h; rfl
    | 1, h => cases h; rfl
    | 2, h => cases h; rfl
  · rintro rfl
    cases n <;> rfl

theorem ofName?_name (n : Network) : ofName? n.name = some n := by
  cases n <;> simp [ofName?, name]

end Network
end HttpExchange
