/-
# Finite maps

A dictionary holds each key at most once, newest first. Every operation is
described by what it does to `find?`.

Key definitions: `Dict`, `Dict.find?`, `Dict.insert`, `Dict.erase`,
`Dict.modify`.
Key theorems: `Dict.find?_insert`, `Dict.find?_erase`, `Dict.find?_modify`.
-/

namespace HttpExchange

/-- A map from keys to values as a list of pairs with different keys. -/
structure Dict (κ ν : Type) where
  entries : List (κ × ν) := []
  nodup : (entries.map Prod.fst).Nodup := by exact List.nodup_nil

namespace Dict

variable {κ ν : Type} [DecidableEq κ]

instance : Inhabited (Dict κ ν) := ⟨{}⟩

def lookupIn (k : κ) : List (κ × ν) → Option ν
  | [] => none
  | e :: l => if e.1 = k then some e.2 else lookupIn k l

def find? (t : Dict κ ν) (k : κ) : Option ν := lookupIn k t.entries

def contains (t : Dict κ ν) (k : κ) : Bool := (t.find? k).isSome

def size (t : Dict κ ν) : Nat := t.entries.length

def erase (t : Dict κ ν) (k : κ) : Dict κ ν where
  entries := t.entries.filter fun e => e.1 != k
  nodup := t.nodup.sublist (List.filter_sublist.map Prod.fst)

/-- The dictionary with `v` under `k`, in place of what was there. -/
def insert (t : Dict κ ν) (k : κ) (v : ν) : Dict κ ν where
  entries := (k, v) :: (t.erase k).entries
  nodup := by
    simp only [List.map_cons, List.nodup_cons]
    exact ⟨by simp [erase], (t.erase k).nodup⟩

/-- The dictionary with the value under `k`, if any, replaced by its image. -/
def modify (t : Dict κ ν) (k : κ) (f : ν → ν) : Dict κ ν where
  entries := t.entries.map fun e => if e.1 = k then (e.1, f e.2) else e
  nodup := by
    have : (t.entries.map fun e => if e.1 = k then (e.1, f e.2) else e).map Prod.fst
        = t.entries.map Prod.fst := by
      rw [List.map_map]
      apply List.map_congr_left
      intro e _
      by_cases h : e.1 = k <;> simp [h]
    rw [this]
    exact t.nodup

theorem lookupIn_filter (k j : κ) : ∀ l : List (κ × ν),
    lookupIn j (l.filter fun e => e.1 != k) = if j = k then none else lookupIn j l
  | [] => by simp [lookupIn]
  | (a, v) :: l => by
    have ih := lookupIn_filter k j l
    by_cases hak : a = k <;> by_cases hja : a = j <;> simp_all [lookupIn]

theorem lookupIn_map (k j : κ) (f : ν → ν) : ∀ l : List (κ × ν),
    lookupIn j (l.map fun e => if e.1 = k then (e.1, f e.2) else e)
      = if j = k then (lookupIn k l).map f else lookupIn j l
  | [] => by simp [lookupIn]
  | (a, v) :: l => by
    have ih := lookupIn_map k j f l
    by_cases hak : a = k <;> by_cases hja : a = j <;> simp_all [lookupIn]
    grind

theorem lookupIn_isSome (k : κ) :
    ∀ l : List (κ × ν), (lookupIn k l).isSome ↔ k ∈ l.map Prod.fst
  | [] => by simp [lookupIn]
  | (a, v) :: l => by
    have ih := lookupIn_isSome k l
    rw [lookupIn, List.map_cons, List.mem_cons]
    by_cases ha : a = k
    · simp [ha]
    · simp only [if_neg ha, ih, Ne.symm ha, false_or]

@[simp] theorem find?_empty (k : κ) : ({} : Dict κ ν).find? k = none := rfl

theorem find?_erase (t : Dict κ ν) (k j : κ) :
    (t.erase k).find? j = if j = k then none else t.find? j :=
  lookupIn_filter k j t.entries

theorem find?_insert (t : Dict κ ν) (k j : κ) (v : ν) :
    (t.insert k v).find? j = if j = k then some v else t.find? j := by
  have h := find?_erase t k j
  by_cases hj : j = k
  · simp [find?, insert, lookupIn, hj]
  · simpa [find?, insert, lookupIn, hj, Ne.symm hj] using h

theorem find?_modify (t : Dict κ ν) (k j : κ) (f : ν → ν) :
    (t.modify k f).find? j = if j = k then (t.find? k).map f else t.find? j :=
  lookupIn_map k j f t.entries

end Dict
end HttpExchange
