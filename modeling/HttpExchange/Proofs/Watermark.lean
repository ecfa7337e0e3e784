/-
# Runs of a buffer

A buffer is low or high. A low one holds no more than its high mark, and a high
one no less than its low mark; what an action does to the state, and what is
reported, depends on the length that it leaves (`Buffer.act_crosses`).

A buffer that was above its high mark is high, and reports `belowLow` before it
is empty, unless there is no length under its low mark: with a high mark of one,
half of which is none, it stays high for good and reports nothing more
(`Buffer.reports_stuck`). From empty, the next rise above the high mark is
reported by every other buffer (`Buffer.reports_rise`).

Key definitions: `Buffer.Action`, `Buffer.after`, `Buffer.reports`,
`Buffer.Level`, `Buffer.Crosses`.
Key theorems: `Buffer.act_crosses`, `Buffer.level_after`, `Buffer.head?_reports`,
`Buffer.reports_stuck`, `Buffer.reports_rise`.
-/
import HttpExchange.Buffer

namespace HttpExchange
namespace Buffer

/-- What can be done to a buffer. -/
inductive Action
  | push (chunk : Bytes)
  | drain (most : Nat)
  deriving DecidableEq, Repr

/-- An action, and what the buffer reports of it. -/
def act (b : Buffer) : Action → Buffer × Option Crossing
  | .push chunk => b.push chunk
  | .drain most => (b.drain most).2

/-- The buffer that a run leaves. -/
def after (b : Buffer) : List Action → Buffer
  | [] => b
  | a :: as => (b.act a).1.after as

/-- What is reported in a run. -/
def reports (b : Buffer) : List Action → List Crossing
  | [] => []
  | a :: as => (b.act a).2.toList ++ (b.act a).1.reports as

theorem after_cons (b : Buffer) (a : Action) (as : List Action) :
    b.after (a :: as) = (b.act a).1.after as := rfl

theorem reports_cons (b : Buffer) (a : Action) (as : List Action) :
    b.reports (a :: as) = (b.act a).2.toList ++ (b.act a).1.reports as := rfl

theorem after_append (b : Buffer) (as bs : List Action) :
    b.after (as ++ bs) = (b.after as).after bs := by
  induction as generalizing b with
  | nil => rfl
  | cons a as ih => exact ih (b.act a).1

theorem reports_append (b : Buffer) (as bs : List Action) :
    b.reports (as ++ bs) = b.reports as ++ (b.after as).reports bs := by
  induction as generalizing b with
  | nil => rfl
  | cons a as ih => rw [List.cons_append, reports_cons, ih, reports_cons, List.append_assoc, after_cons]

theorem isEmpty_iff (b : Buffer) : b.isEmpty = true ↔ b.size = 0 := by
  unfold isEmpty size
  rw [List.isEmpty_iff, List.length_eq_zero_iff]

/-! ### One action -/

/-- A low buffer holds no more than its high mark, a high one no less than its
low mark. -/
structure Level (b : Buffer) : Prop where
  below : b.raised = false → b.size ≤ b.high
  above : b.raised = true → b.low ≤ b.size

theorem level_new (high : Nat) : ({ high := high } : Buffer).Level where
  below _ := Nat.zero_le _
  above h := by cases h

/-- A buffer above its high mark is high. -/
theorem Level.raised {b : Buffer} (hb : b.Level) (h : b.high < b.size) : b.raised = true := by
  cases hr : b.raised with
  | true => rfl
  | false =>
    have hle := hb.below hr
    omega

/-- What an action can do to a buffer, by the state that it finds and the length
that it leaves. -/
inductive Crosses (b d : Buffer) : Option Crossing → Prop
  | rises : b.raised = false → d.raised = true → b.high < d.size → Crosses b d (some .aboveHigh)
  | low : b.raised = false → d.raised = false → d.size ≤ b.high → Crosses b d none
  | falls : b.raised = true → d.raised = false → d.size < b.low → Crosses b d (some .belowLow)
  | high : b.raised = true → d.raised = true → b.low ≤ d.size → Crosses b d none

variable {b : Buffer}

theorem low_le_high (b : Buffer) : b.low ≤ b.high := Nat.div_le_self ..

theorem high_act (b : Buffer) (a : Action) : (b.act a).1.high = b.high := by
  cases a with
  | push chunk => exact b.high_push chunk
  | drain most => exact b.high_drain most

theorem act_crosses (hb : b.Level) (a : Action) : Crosses b (b.act a).1 (b.act a).2 := by
  cases a with
  | push chunk =>
    have hsize : b.size ≤ (b.bytes ++ chunk).length := by
      rw [List.length_append]
      exact Nat.le_add_right ..
    change Crosses b (b.push chunk).1 (b.push chunk).2
    unfold push
    dsimp only
    by_cases hrise : (!b.raised && decide (b.high < (b.bytes ++ chunk).length)) = true
    · obtain ⟨hr, hlt⟩ : b.raised = false ∧ b.high < (b.bytes ++ chunk).length := by simpa using hrise
      rw [if_pos hrise]
      exact .rises hr rfl hlt
    · rw [if_neg hrise]
      by_cases hr : b.raised = true
      · exact .high hr hr (Nat.le_trans (hb.above hr) hsize)
      · have hlo : b.raised = false := Bool.eq_false_iff.mpr hr
        have hle : (b.bytes ++ chunk).length ≤ b.high := by simpa [hlo] using hrise
        exact .low hlo hlo hle
  | drain most =>
    have hsize : (b.bytes.drop most).length ≤ b.size := by
      rw [List.length_drop]
      exact Nat.sub_le ..
    change Crosses b (b.drain most).2.1 (b.drain most).2.2
    unfold drain
    dsimp only
    by_cases hfall : (b.raised && decide ((b.bytes.drop most).length < b.low)) = true
    · obtain ⟨hr, hlt⟩ : b.raised = true ∧ (b.bytes.drop most).length < b.low := by simpa using hfall
      rw [if_pos hfall]
      exact .falls hr rfl hlt
    · rw [if_neg hfall]
      by_cases hr : b.raised = true
      · have hle : b.low ≤ (b.bytes.drop most).length := by simpa [hr] using hfall
        exact .high hr hr hle
      · have hlo : b.raised = false := Bool.eq_false_iff.mpr hr
        exact .low hlo hlo (Nat.le_trans hsize (hb.below hlo))

theorem level_act (hb : b.Level) (a : Action) : (b.act a).1.Level := by
  have hhigh := b.high_act a
  have hlow : (b.act a).1.low = b.low := congrArg (· / 2) hhigh
  have hle := b.low_le_high
  have h := act_crosses hb a
  generalize b.act a = r at h hhigh hlow ⊢
  obtain ⟨d, report⟩ := r
  dsimp only at h hhigh hlow ⊢
  constructor
  · intro hd
    cases h with
    | rises _ hd' _ | high _ hd' _ =>
      rw [hd] at hd'
      cases hd'
    | low _ _ hs => omega
    | falls _ _ hs => omega
  · intro hd
    cases h with
    | low _ hd' _ | falls _ hd' _ =>
      rw [hd] at hd'
      cases hd'
    | rises _ _ hs => omega
    | high _ _ hs => omega

/-! ### Runs -/

theorem high_after (b : Buffer) (as : List Action) : (b.after as).high = b.high := by
  induction as generalizing b with
  | nil => rfl
  | cons a as ih => exact (ih _).trans (b.high_act a)

theorem level_after (hb : b.Level) (as : List Action) : (b.after as).Level := by
  induction as generalizing b with
  | nil => exact hb
  | cons a as ih => exact ih (level_act hb a)

/-- With no length under its low mark, a high buffer stays high and reports
nothing. -/
theorem reports_stuck (hb : b.Level) (hr : b.raised = true) (hlow : b.low = 0) (as : List Action) :
    b.reports as = [] ∧ (b.after as).raised = true := by
  induction as generalizing b with
  | nil => exact ⟨rfl, hr⟩
  | cons a as ih =>
    have hnext : (b.act a).1.low = 0 := by
      rw [← hlow]
      exact congrArg (· / 2) (b.high_act a)
    have hlevel := level_act hb a
    have h := act_crosses hb a
    rw [reports_cons, after_cons]
    generalize b.act a = r at h hnext hlevel ⊢
    obtain ⟨d, report⟩ := r
    cases h with
    | rises hlo _ _ | low hlo _ _ =>
      rw [hr] at hlo
      cases hlo
    | falls _ _ hs => omega
    | high _ hd _ => exact ih hlevel hd hnext

/-- A high buffer that comes to be empty reports before that, and first of all,
that it has fallen under its low mark, if there is any length under it. -/
theorem head?_reports (hb : b.Level) (hr : b.raised = true) (hlow : 0 < b.low) {as : List Action}
    (hempty : (b.after as).size = 0) : (b.reports as).head? = some .belowLow := by
  induction as generalizing b with
  | nil =>
    have hle := hb.above hr
    have hnone : b.size = 0 := hempty
    omega
  | cons a as ih =>
    have hnext : 0 < (b.act a).1.low := by
      rw [show (b.act a).1.low = b.low from congrArg (· / 2) (b.high_act a)]
      exact hlow
    have hlevel := level_act hb a
    have h := act_crosses hb a
    rw [after_cons] at hempty
    rw [reports_cons]
    generalize b.act a = r at h hnext hlevel hempty ⊢
    obtain ⟨d, report⟩ := r
    cases h with
    | rises hlo _ _ | low hlo _ _ =>
      rw [hr] at hlo
      cases hlo
    | falls _ _ _ => rfl
    | high _ hd _ => exact ih hlevel hd hnext hempty

/-- An empty buffer is low, if there is any length under its low mark. -/
theorem Level.low_of_empty (hb : b.Level) (hempty : b.size = 0) (hlow : 0 < b.low) :
    b.raised = false := by
  cases hr : b.raised with
  | false => rfl
  | true =>
    have hle := hb.above hr
    omega

/-- A low buffer reports nothing as long as it is not above its high mark. -/
theorem reports_low (hb : b.Level) (hr : b.raised = false) {as : List Action}
    (hwithin : ∀ p, p <+: as → (b.after p).size ≤ b.high) :
    b.reports as = [] ∧ (b.after as).raised = false := by
  induction as generalizing b with
  | nil => exact ⟨rfl, hr⟩
  | cons a as ih =>
    have hhigh := b.high_act a
    have hlevel := level_act hb a
    have hnow : (b.act a).1.size ≤ b.high := hwithin [a] (List.prefix_append [a] as)
    have hlater : ∀ p, p <+: as → ((b.act a).1.after p).size ≤ (b.act a).1.high := by
      intro p hp
      rw [hhigh]
      exact hwithin (a :: p) (List.cons_prefix_cons.mpr ⟨rfl, hp⟩)
    have h := act_crosses hb a
    rw [reports_cons, after_cons]
    generalize b.act a = r at h hnow hlater hlevel ⊢
    obtain ⟨d, report⟩ := r
    cases h with
    | falls hhi _ _ | high hhi _ _ =>
      rw [hr] at hhi
      cases hhi
    | rises _ _ hs => exact absurd hnow (Nat.not_le_of_lt hs)
    | low _ hd _ => exact ih hlevel hd hlater

/-- The rise of a low buffer above its high mark is reported, and nothing before
it. -/
theorem reports_rise (hb : b.Level) (hr : b.raised = false) {as : List Action} {a : Action}
    (hwithin : ∀ p, p <+: as → (b.after p).size ≤ b.high)
    (habove : b.high < (b.after (as ++ [a])).size) : b.reports (as ++ [a]) = [.aboveHigh] := by
  obtain ⟨hquiet, hlo⟩ := reports_low hb hr hwithin
  have hlevel := level_after hb as
  rw [after_append, after_cons] at habove
  rw [reports_append, hquiet, reports_cons]
  have h := act_crosses hlevel a
  rw [← b.high_after as] at habove
  generalize (b.after as).act a = r at h habove ⊢
  obtain ⟨d, report⟩ := r
  cases h with
  | rises _ _ _ => rfl
  | low _ _ hs => exact absurd habove (Nat.not_lt_of_le hs)
  | falls hhi _ _ | high hhi _ _ =>
    rw [hlo] at hhi
    cases hhi

/-- A buffer that was above its high mark and comes to be empty has reported that
it fell under its low mark, unless the high mark is one; from then on, its next
rise is reported with the same exception. -/
theorem recovers_iff (hb : b.Level) (hpos : 0 < b.high) (habove : b.high < b.size)
    {later : List Action} (hempty : (b.after later).isEmpty = true) :
    ((b.reports later).head? = some .belowLow ↔ b.high ≠ 1) ∧
      ∀ next a, (∀ p, p <+: next → ((b.after later).after p).size ≤ b.high) →
        b.high < ((b.after later).after (next ++ [a])).size →
        (b.after later).reports (next ++ [a]) = if b.high = 1 then [] else [.aboveHigh] := by
  have hr := hb.raised habove
  have hlevel := level_after hb later
  have hhigh := b.high_after later
  have hlow : (b.after later).low = b.low := congrArg (· / 2) hhigh
  by_cases hone : b.high = 1
  · have hnone : b.low = 0 := by
      unfold low
      rw [hone]
    obtain ⟨hsilent, hr'⟩ := reports_stuck hb hr hnone later
    refine ⟨by simp [hsilent, hone], fun next a _ _ => ?_⟩
    rw [if_pos hone]
    exact (reports_stuck hlevel hr' (hlow.trans hnone) (next ++ [a])).1
  · have hsome : 0 < b.low := Nat.div_pos (by omega) (by omega)
    have hsize := (isEmpty_iff _).mp hempty
    refine ⟨iff_of_true (head?_reports hb hr hsome hsize) hone, fun next a hwithin hrise => ?_⟩
    rw [if_neg hone]
    apply reports_rise hlevel
    · exact hlevel.low_of_empty hsize (hlow ▸ hsome)
    · rwa [hhigh]
    · rwa [hhigh]

end Buffer
end HttpExchange
