/-
# ASCII letters without case

Header names, networks and log levels are compared with the case of ASCII
letters ignored; every other character counts as it stands. `lower` is the
spelling that is stored, `alike` the comparison, and the two agree
(`alike_iff`).
-/

namespace HttpExchange
namespace Text

def lower (s : String) : String := String.ofList (s.toList.map Char.toLower)

/-- The same characters, the case of ASCII letters ignored. -/
def alikeChars : List Char → List Char → Bool
  | [], [] => true
  | a :: as, b :: bs => a.toLower == b.toLower && alikeChars as bs
  | _, _ => false

def alike (s t : String) : Bool := alikeChars s.toList t.toList

theorem alikeChars_iff : ∀ as bs : List Char,
    alikeChars as bs = true ↔ as.map Char.toLower = bs.map Char.toLower
  | [], [] => by simp [alikeChars]
  | [], _ :: _ => by simp [alikeChars]
  | _ :: _, [] => by simp [alikeChars]
  | a :: as, b :: bs => by simp [alikeChars, alikeChars_iff as bs]

/-- Comparing without case is comparing the stored spellings. -/
theorem alike_iff (s t : String) : alike s t = true ↔ lower s = lower t := by
  rw [alike, alikeChars_iff, lower, lower]
  exact ⟨fun h => by rw [h], fun h => String.ofList_injective h⟩

@[simp] theorem toList_lower (s : String) : (lower s).toList = s.toList.map Char.toLower := by
  simp [lower]

end Text
end HttpExchange
