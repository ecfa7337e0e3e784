/-
# Values behind several names

Names are numbered in the order in which they are made. A name is given to a
fresh value, or to the value of a name that exists. A change through one name
shows through every name of that value and through no other (`get?_update`), and
no name ever moves to another value.

Key definitions: `Shared`, `Shared.cell?`, `Shared.get?`, `Shared.update`,
`Shared.share`, `Shared.fresh`.
Key theorems: `Shared.get?_update`, `Shared.get?_share`, `Shared.get?_fresh`,
`Shared.cell?_ne_of_fresh`.
-/

namespace HttpExchange

/-- Values and the names that lead to them; `names` holds each name's cell. -/
structure Shared (α : Type) where
  cells : List α := []
  names : List Nat := []
  led : ∀ c ∈ names, c < cells.length := by simp

namespace Shared

variable {α : Type}

def ofValue (a : α) : Shared α := { cells := [a], names := [0] }

/-- The cell that a name leads to. Two names with one cell stand for one value. -/
def cell? (s : Shared α) (i : Nat) : Option Nat := s.names[i]?

def get? (s : Shared α) (i : Nat) : Option α := (s.cell? i).bind fun c => s.cells[c]?

def update (s : Shared α) (i : Nat) (f : α → α) : Shared α :=
  match s.cell? i with
  | none => s
  | some c => { s with
      cells := s.cells.modify c f
      led := fun d hd => by simpa using s.led d hd }

/-- One more name for the value behind `i`. -/
def share (s : Shared α) (i : Nat) : Shared α :=
  match h : s.cell? i with
  | none => s
  | some c => { s with
      names := s.names ++ [c]
      led := by
        have hc : c ∈ s.names := List.mem_of_getElem? h
        simpa [or_imp, forall_and] using ⟨s.led, s.led c hc⟩ }

/-- One more name, for a value of its own. -/
def fresh (s : Shared α) (a : α) : Shared α where
  cells := s.cells ++ [a]
  names := s.names ++ [s.cells.length]
  led c hc := by
    rw [List.length_append, List.length_singleton]
    rcases List.mem_append.mp hc with hc | hc
    · exact Nat.lt_succ_of_lt (s.led c hc)
    · rw [List.mem_singleton.mp hc]
      exact Nat.lt_succ_self _

def toList (s : Shared α) : List α := s.names.filterMap fun c => s.cells[c]?

def size (s : Shared α) : Nat := s.names.length

/-! ### Which names lead where -/

variable {s : Shared α} {i j c : Nat}

theorem cell?_lt (h : s.cell? i = some c) : c < s.cells.length := s.led c (List.mem_of_getElem? h)

@[simp] theorem cell?_size : s.cell? s.size = none :=
  List.getElem?_eq_none (Nat.le_refl _)

theorem cell?_update (f : α → α) : (s.update i f).cell? j = s.cell? j := by
  unfold update
  split <;> rfl

theorem cell?_append {t : Shared α} (h : t.names = s.names ++ [c]) :
    t.cell? j = if j = s.size then some c else s.cell? j := by
  unfold cell? size
  rw [h]
  split
  · rename_i hj
    rw [hj, List.getElem?_concat_length]
  · rename_i hj
    rcases Nat.lt_or_gt_of_ne hj with hj | hj
    · rw [List.getElem?_append_left hj]
    · rw [List.getElem?_eq_none (by simp; omega), List.getElem?_eq_none (Nat.le_of_lt hj)]

theorem cell?_share : (s.share i).cell? j = if j = s.size then s.cell? i else s.cell? j := by
  unfold share
  split
  · rename_i h
    split
    · rename_i hj
      rw [hj, cell?_size, h]
    · rfl
  · rename_i c h
    rw [cell?_append rfl, h]

theorem cell?_fresh (a : α) :
    (s.fresh a).cell? j = if j = s.size then some s.cells.length else s.cell? j :=
  cell?_append rfl

/-- No other name leads to a fresh value. -/
theorem cell?_ne_of_fresh (a : α) (hj : j ≠ s.size) :
    (s.fresh a).cell? j ≠ (s.fresh a).cell? s.size := by
  rw [cell?_fresh, cell?_fresh, if_neg hj, if_pos rfl]
  exact fun h => Nat.lt_irrefl _ (cell?_lt h)

/-! ### What the names show -/

/-- Just the names that were made show a value. -/
theorem isSome_get? : (s.get? i).isSome ↔ i < s.size := by
  unfold get?
  cases h : s.cell? i with
  | none => simpa [size, cell?] using h
  | some c =>
    rw [Option.bind_some, List.getElem?_eq_getElem (cell?_lt h)]
    exact iff_of_true rfl (List.getElem?_eq_some_iff.mp h).1

/-- A change through `i` shows through every name of the same value, and through
no other. -/
theorem get?_update (f : α → α) :
    (s.update i f).get? j = if s.cell? j = s.cell? i then (s.get? j).map f else s.get? j := by
  unfold get?
  rw [cell?_update]
  unfold update
  cases hj : s.cell? j with
  | none => simp
  | some d =>
    cases hi : s.cell? i with
    | none => simp
    | some c =>
      by_cases hd : d = c
      · simp [hd]
      · simp [hd, List.getElem?_modify, Ne.symm hd]

theorem get?_share : (s.share i).get? j = if j = s.size then s.get? i else s.get? j := by
  have hcells : (s.share i).cells = s.cells := by
    unfold share
    split <;> rfl
  unfold get?
  rw [cell?_share, hcells]
  split <;> rfl

theorem get?_fresh (a : α) :
    (s.fresh a).get? j = if j = s.size then some a else s.get? j := by
  unfold get?
  rw [cell?_fresh]
  split
  · exact List.getElem?_concat_length
  · cases h : s.cell? j with
    | none => rfl
    | some c => exact List.getElem?_append_left (cell?_lt h)

theorem getElem?_filterMap {β γ : Type} {f : β → Option γ} {l : List β}
    (h : ∀ b ∈ l, (f b).isSome) (i : Nat) : (l.filterMap f)[i]? = l[i]?.bind f := by
  induction l generalizing i with
  | nil => rfl
  | cons b l ih =>
    obtain ⟨c, hc⟩ := Option.isSome_iff_exists.mp (h b List.mem_cons_self)
    rw [List.filterMap_cons_some hc]
    cases i with
    | zero => exact hc.symm
    | succ i => exact ih (fun b hb => h b (List.mem_cons_of_mem _ hb)) i

/-- The list holds what the names show, in the order in which they were made. -/
theorem getElem?_toList : s.toList[i]? = s.get? i :=
  getElem?_filterMap (fun c hc => by simp [s.led c hc]) i

end Shared
end HttpExchange
