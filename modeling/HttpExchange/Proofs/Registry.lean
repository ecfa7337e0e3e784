/-
# The registry as one map

Read through `lookup`, the two buckets of a registry are one map from handles
to a bucket and a stream. As long as no handle is in both buckets
(`Registry.Disjoint`), every operation changes this map under its own handle
only, and `remove` leaves nothing behind.

Key definitions: `Registry.Bucket`, `Registry.lookup`, `Registry.Disjoint`.
Key theorems: `Registry.find?_anyState`, `Registry.lookup_close`,
`Registry.lookup_modify`, `Registry.lookup_insert`, `Registry.lookup_remove`.
-/
import HttpExchange.Registry

namespace HttpExchange
namespace Registry

/-- The two places a registered stream can be in. -/
inductive Bucket
  | opened
  | closed
  deriving DecidableEq, Repr

variable {σ : Type}

/-- The stream under a handle and the bucket that holds it. -/
def lookup (r : Registry σ) (h : Handle) : Option (Bucket × σ) :=
  match r.opened.find? h with
  | some s => some (.opened, s)
  | none => (r.closed.find? h).map fun s => (.closed, s)

/-- No handle is in both buckets. -/
def Disjoint (r : Registry σ) : Prop :=
  ∀ h, r.opened.find? h ≠ none → r.closed.find? h = none

theorem disjoint_empty : ({} : Registry σ).Disjoint := fun _ _ => rfl

theorem find?_anyState (r : Registry σ) (h : Handle) :
    r.find? h .anyState = (r.lookup h).map (·.2) := by
  unfold find? lookup
  cases r.opened.find? h with
  | some s => rfl
  | none => cases r.closed.find? h <;> rfl

theorem find?_openOnly (r : Registry σ) (h : Handle) :
    r.find? h .openOnly = ((r.lookup h).filter fun e => e.1 == .opened).map (·.2) := by
  unfold find? lookup
  cases r.opened.find? h with
  | some s => rfl
  | none => cases r.closed.find? h <;> rfl

theorem contains_anyState (r : Registry σ) (h : Handle) :
    r.contains h .anyState = (r.lookup h).isSome := by
  unfold contains lookup Dict.contains
  cases r.opened.find? h with
  | some s => rfl
  | none => cases r.closed.find? h <;> rfl

theorem lookup_eq_none (r : Registry σ) (h : Handle) :
    r.lookup h = none ↔ r.opened.find? h = none ∧ r.closed.find? h = none := by
  unfold lookup
  cases r.opened.find? h with
  | some s => simp
  | none => simp

theorem lookup_opened {r : Registry σ} {h : Handle} {s : σ} :
    r.lookup h = some (.opened, s) ↔ r.opened.find? h = some s := by
  unfold lookup
  cases r.opened.find? h with
  | some t => simp
  | none => simp

theorem lookup_closed {r : Registry σ} (hr : r.Disjoint) {h : Handle} {s : σ} :
    r.lookup h = some (.closed, s) ↔ r.closed.find? h = some s := by
  have hd := hr h
  unfold lookup
  cases ho : r.opened.find? h with
  | some t => simp [hd (by simp [ho])]
  | none => simp

theorem insert_of_registered {r : Registry σ} {h : Handle} (he : r.lookup h ≠ none) (s : σ) :
    r.insert h s = .error (.registeredTwice h) := by
  unfold insert
  rw [contains_anyState, if_pos (Option.isSome_iff_ne_none.mpr he)]

theorem insert_of_unregistered {r : Registry σ} {h : Handle} (he : r.lookup h = none) (s : σ) :
    ∃ r', r.insert h s = .ok r' := by
  unfold insert
  rw [contains_anyState, he]
  exact ⟨_, rfl⟩

theorem insert_fails_iff (r : Registry σ) (h : Handle) (s : σ) :
    (∃ f, r.insert h s = .error f) ↔ r.lookup h ≠ none := by
  constructor
  · rintro ⟨f, hf⟩ he
    obtain ⟨r', hr'⟩ := insert_of_unregistered he s
    rw [hr'] at hf
    cases hf
  · intro he
    exact ⟨_, insert_of_registered he s⟩

theorem lookup_insert {r r' : Registry σ} {h : Handle} {s : σ} (hi : r.insert h s = .ok r')
    (k : Handle) : r'.lookup k = if k = h then some (.opened, s) else r.lookup k := by
  unfold insert at hi
  split at hi
  · cases hi
  · cases hi
    unfold lookup
    rw [Dict.find?_insert]
    by_cases hk : k = h <;> simp [hk]

theorem disjoint_insert {r r' : Registry σ} {h : Handle} {s : σ} (hr : r.Disjoint)
    (hi : r.insert h s = .ok r') : r'.Disjoint := by
  unfold insert at hi
  split at hi
  · cases hi
  · rename_i hc
    cases hi
    intro k hk
    by_cases hkh : k = h
    · subst hkh
      rw [contains_anyState] at hc
      unfold lookup at hc
      cases ho : r.opened.find? k <;> cases hcl : r.closed.find? k <;> simp_all
    · simp only [Dict.find?_insert, hkh, if_false] at hk
      exact hr k hk

/-- A stream that the remote side has ended goes to the closed bucket as it is. -/
theorem lookup_close (r : Registry σ) (h k : Handle) :
    (r.close h).1.lookup k
      = if k = h then (r.lookup h).map fun e => (.closed, e.2) else r.lookup k := by
  unfold close lookup
  cases ho : r.opened.find? h with
  | some s =>
    simp only [Dict.find?_erase, Dict.find?_insert]
    by_cases hk : k = h <;> simp [hk]
  | none =>
    by_cases hk : k = h
    · subst hk
      cases r.closed.find? k <;> simp [ho]
    · simp [hk]

theorem disjoint_close {r : Registry σ} (hr : r.Disjoint) (h : Handle) :
    (r.close h).1.Disjoint := by
  unfold close
  split
  · intro k hk
    simp only [Dict.find?_erase, Dict.find?_insert] at hk ⊢
    by_cases hkh : k = h
    · simp [hkh] at hk
    · simp only [hkh, if_false] at hk ⊢
      exact hr k hk
  · exact hr

theorem lookup_modify (r : Registry σ) (h k : Handle) (f : σ → σ) :
    (r.modify h .anyState f).lookup k
      = if k = h then (r.lookup h).map fun e => (e.1, f e.2) else r.lookup k := by
  unfold modify lookup Dict.contains
  cases ho : r.opened.find? h with
  | some s =>
    simp only [Option.isSome_some, if_true, Dict.find?_modify]
    by_cases hk : k = h <;> simp [hk, ho]
  | none =>
    simp only [Option.isSome_none, Bool.false_eq_true, if_false, Dict.find?_modify]
    by_cases hk : k = h
    · subst hk
      cases r.closed.find? k <;> simp [ho]
    · simp [hk]

theorem lookup_modify_openOnly {r : Registry σ} {h : Handle} {s : σ}
    (he : r.lookup h = some (.opened, s)) (k : Handle) (f : σ → σ) :
    (r.modify h .openOnly f).lookup k = if k = h then some (.opened, f s) else r.lookup k := by
  unfold modify lookup Dict.contains
  unfold lookup at he
  cases ho : r.opened.find? h with
  | some t =>
    simp only [ho, Option.some.injEq, Prod.mk.injEq, true_and] at he
    simp only [Option.isSome_some, if_true, Dict.find?_modify]
    by_cases hk : k = h <;> simp [hk, ho, he]
  | none => simp [ho] at he

theorem disjoint_modify {r : Registry σ} (hr : r.Disjoint) (h : Handle) (scope : Scope)
    (f : σ → σ) : (r.modify h scope f).Disjoint := by
  intro k
  have hk := hr k
  unfold modify Dict.contains
  cases ho : r.opened.find? h <;> cases scope <;> by_cases hkh : k = h <;>
    simp_all [Dict.find?_modify]

theorem remove_eq_none (r : Registry σ) (h : Handle) : r.remove h = none ↔ r.lookup h = none := by
  unfold remove lookup
  cases r.opened.find? h with
  | some s => simp
  | none => cases r.closed.find? h <;> simp

/-- What is removed is what was registered, and nothing stays under its handle. -/
theorem lookup_remove {r r' : Registry σ} (hr : r.Disjoint) {h : Handle} {s : σ}
    (hs : r.remove h = some (s, r')) :
    (r.lookup h).map (·.2) = some s ∧
      ∀ k, r'.lookup k = if k = h then none else r.lookup k := by
  have hd := hr h
  unfold remove at hs
  unfold lookup
  cases ho : r.opened.find? h with
  | some t =>
    simp only [ho, Option.some.injEq, Prod.mk.injEq] at hs
    obtain ⟨rfl, rfl⟩ := hs
    refine ⟨rfl, fun k => ?_⟩
    simp only [Dict.find?_erase]
    by_cases hk : k = h
    · simp [hk, hd (by simp [ho])]
    · simp [hk]
  | none =>
    cases hc : r.closed.find? h with
    | none => simp [ho, hc] at hs
    | some t =>
      simp only [ho, hc, Option.some.injEq, Prod.mk.injEq] at hs
      obtain ⟨rfl, rfl⟩ := hs
      refine ⟨rfl, fun k => ?_⟩
      simp only [Dict.find?_erase]
      by_cases hk : k = h
      · simp [hk, ho]
      · simp [hk]

theorem disjoint_remove {r r' : Registry σ} (hr : r.Disjoint) {h : Handle} {s : σ}
    (hs : r.remove h = some (s, r')) : r'.Disjoint := by
  intro k hk
  have hd := hr k
  unfold remove at hs
  split at hs
  · cases hs
    by_cases hkh : k = h <;> simp_all [Dict.find?_erase]
  · split at hs
    · cases hs
      by_cases hkh : k = h <;> simp_all [Dict.find?_erase]
    · cases hs

end Registry
end HttpExchange
