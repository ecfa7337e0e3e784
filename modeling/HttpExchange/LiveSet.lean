/-
# Live handles

The handles that have been claimed for a stream and not yet given back. The
facade claims a handle before it asks for the stream; the client gives it back
when the stream retires.
-/
import HttpExchange.Handle

namespace HttpExchange

structure LiveSet where
  handles : List Handle := []
  nodup : handles.Nodup := by exact List.nodup_nil
  deriving DecidableEq, Repr

namespace LiveSet

instance : Inhabited LiveSet := ⟨{}⟩

instance : Membership Handle LiveSet := ⟨fun s h => h ∈ s.handles⟩

instance (h : Handle) (s : LiveSet) : Decidable (h ∈ s) := inferInstanceAs (Decidable (h ∈ s.handles))

/-- Claims a handle; fails if it is live already. -/
def claim (s : LiveSet) (h : Handle) : Option LiveSet :=
  if hm : h ∈ s.handles then none
  else some ⟨h :: s.handles, List.nodup_cons.2 ⟨hm, s.nodup⟩⟩

def erase (s : LiveSet) (h : Handle) : LiveSet :=
  ⟨s.handles.filter (· != h), s.nodup.sublist List.filter_sublist⟩

/-- Gives a handle back; fails if it is not live. -/
def release (s : LiveSet) (h : Handle) : Option LiveSet :=
  if h ∈ s then some (s.erase h) else none

def size (s : LiveSet) : Nat := s.handles.length

theorem mem_def {h : Handle} {s : LiveSet} : h ∈ s ↔ h ∈ s.handles := Iff.rfl

theorem mem_erase {s : LiveSet} {h k : Handle} : k ∈ s.erase h ↔ k ∈ s ∧ k ≠ h := by
  simp [mem_def, erase]

theorem mem_claim {s t : LiveSet} {h k : Handle} (ht : s.claim h = some t) :
    k ∈ t ↔ k = h ∨ k ∈ s := by
  unfold claim at ht
  split at ht
  · cases ht
  · cases ht; simp [mem_def]

theorem claim_eq_none_iff {s : LiveSet} {h : Handle} : s.claim h = none ↔ h ∈ s := by
  unfold claim
  split <;> simp_all [mem_def]

end LiveSet
end HttpExchange
