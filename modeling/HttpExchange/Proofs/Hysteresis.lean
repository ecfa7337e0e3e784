/-
# The two marks of a buffer

A buffer reports what happens to its length in turns: it rose above the high
mark, it fell under the low one, and so on. What it reported last is its whole
state beside the bytes (`Buffer.Reported`), so the reports so far and the length
say which action is reported next and which is not (`Buffer.push_reports`,
`Buffer.drain_reports`), and in which bounds the length is
(`Buffer.Reported.bounds`). Whatever is reported, no byte is refused and none
is lost (`Buffer.drained_append`).

This holds for every high mark, the marks none and one among them. There is no
length under the low mark then, so `aboveHigh` is the last report such a buffer
makes.

Key definitions: `Crossing.alternation`, `Buffer.pushed`, `Buffer.drained`,
`Buffer.Reported`.
Key theorems: `Buffer.reported_after`, `Buffer.drained_append`,
`watermark_hysteresis`.
-/
import Mathlib.Data.List.Induction
import HttpExchange.Proofs.Watermark

namespace HttpExchange

/-- The first `n` of the reports `aboveHigh`, `belowLow`, `aboveHigh` and so on. -/
def Crossing.alternation (n : Nat) : List Crossing :=
  (List.range n).map fun k => if k % 2 = 0 then aboveHigh else belowLow

theorem Crossing.alternation_succ (n : Nat) :
    alternation (n + 1) = alternation n ++ [if n % 2 = 0 then aboveHigh else belowLow] := by
  unfold alternation
  rw [List.range_succ, List.map_append, List.map_singleton]

/-- The last of the first `n` reports is `aboveHigh` if `n` is odd. -/
theorem Crossing.getLast?_alternation (n : Nat) :
    (alternation n).getLast? = some aboveHigh ↔ n % 2 = 1 := by
  cases n with
  | zero => simp [alternation]
  | succ n =>
    rw [alternation_succ, List.getLast?_concat]
    rcases Nat.mod_two_eq_zero_or_one n with h | h
    · rw [if_pos h]
      exact iff_of_true rfl (by omega)
    · rw [if_neg (by omega)]
      exact iff_of_false (by simp) (by omega)

namespace Buffer

/-! ### Bytes -/

/-- All bytes that are pushed in a run. -/
def pushed : List Action → Bytes
  | [] => []
  | .push chunk :: as => chunk ++ pushed as
  | .drain _ :: as => pushed as

/-- All bytes that the drains of a run return. -/
def drained (b : Buffer) : List Action → Bytes
  | [] => []
  | .push chunk :: as => (b.push chunk).1.drained as
  | .drain most :: as => (b.drain most).1 ++ (b.drain most).2.1.drained as

/-- What comes out of a buffer and what it holds in the end is what it held at
first and what goes in. -/
theorem drained_append (b : Buffer) : ∀ as : List Action,
    b.drained as ++ (b.after as).bytes = b.bytes ++ pushed as
  | [] => by simp [drained, after, pushed]
  | .push chunk :: as => by
    calc (b.push chunk).1.drained as ++ ((b.push chunk).1.after as).bytes
        = (b.push chunk).1.bytes ++ pushed as := drained_append _ as
      _ = b.bytes ++ (chunk ++ pushed as) := by rw [bytes_push, List.append_assoc]
  | .drain most :: as => by
    calc (b.drain most).1 ++ (b.drain most).2.1.drained as ++ ((b.drain most).2.1.after as).bytes
        = (b.drain most).1 ++ ((b.drain most).2.1.bytes ++ pushed as) := by
          rw [List.append_assoc, drained_append _ as]
      _ = b.bytes ++ pushed as := by rw [← List.append_assoc, drain_append]

/-- A drain returns as many bytes as it asks for, or all there are. -/
theorem length_drain (b : Buffer) (most : Nat) : (b.drain most).1.length = min most b.size := by
  rw [fst_drain, List.length_take]
  rfl

/-! ### Reports -/

/-- What a buffer has reported so far: the two reports in turns, the last of
them `aboveHigh` if it is high. -/
structure Reported (b : Buffer) (rs : List Crossing) : Prop where
  turns : rs = Crossing.alternation rs.length
  odd : b.raised = true ↔ rs.length % 2 = 1

variable {b : Buffer} {rs : List Crossing}

theorem Reported.raised_iff (hr : b.Reported rs) :
    b.raised = true ↔ rs.getLast? = some .aboveHigh := by
  rw [hr.turns, Crossing.getLast?_alternation]
  exact hr.odd

theorem Reported.low_iff (hr : b.Reported rs) :
    b.raised = false ↔ rs.getLast? ≠ some .aboveHigh := by
  rw [← Bool.not_eq_true]
  exact not_congr hr.raised_iff

/-- One more report, in its turn. -/
theorem Reported.concat (hr : b.Reported rs) {d : Buffer} (hd : d.raised = !b.raised) :
    d.Reported (rs ++ [if b.raised then .belowLow else .aboveHigh]) := by
  have hlen : (rs ++ [if b.raised then Crossing.belowLow else .aboveHigh]).length =
    rs.length + 1 := List.length_append
  have hodd := hr.odd
  constructor
  · rw [hlen, Crossing.alternation_succ, ← hr.turns]
    congr 2
    by_cases h : b.raised = true
    · have h1 := hodd.mp h
      rw [if_pos h, if_neg (by omega)]
    · have h0 : ¬ rs.length % 2 = 1 := mt hodd.mpr h
      rw [if_neg h, if_pos (by omega)]
  · rw [hlen, hd]
    cases h : b.raised with
    | true =>
      have h1 := hodd.mp h
      simp only [Bool.not_true, Bool.false_eq_true, false_iff]
      omega
    | false =>
      have h0 : ¬ rs.length % 2 = 1 := by
        rw [← hodd, h]
        exact Bool.false_ne_true
      simp only [Bool.not_false, true_iff]
      omega

theorem Reported.act (hb : b.Level) (hr : b.Reported rs) (a : Action) :
    (b.act a).1.Reported (rs ++ (b.act a).2.toList) := by
  have h := act_crosses hb a
  generalize b.act a = r at h ⊢
  obtain ⟨d, report⟩ := r
  dsimp only at h ⊢
  have quiet (hd : d.raised = b.raised) : d.Reported (rs ++ []) := by
    rw [List.append_nil]
    exact ⟨hr.turns, hd ▸ hr.odd⟩
  cases h with
  | low hlo hd _ => exact quiet (hd.trans hlo.symm)
  | high hhi hd _ => exact quiet (hd.trans hhi.symm)
  | rises hlo hd _ =>
    have hnext := hr.concat (d := d) (by rw [hd, hlo]; rfl)
    rwa [hlo] at hnext
  | falls hhi hd _ =>
    have hnext := hr.concat (d := d) (by rw [hd, hhi]; rfl)
    rwa [hhi] at hnext

/-- What a run reports tells the state of a buffer that was new at first. -/
theorem reported_after (high : Nat) (as : List Action) :
    (({ high := high } : Buffer).after as).Reported (({ high := high } : Buffer).reports as) := by
  induction as using List.reverseRecOn with
  | nil => exact ⟨rfl, iff_of_false Bool.false_ne_true Nat.zero_ne_one⟩
  | append_singleton as a ih =>
    have hlast : (({ high := high } : Buffer).after as).reports [a] =
      ((({ high := high } : Buffer).after as).act a).2.toList := List.append_nil _
    rw [after_append, reports_append, hlast]
    exact ih.act (level_after (level_new high) as) a

/-- The length of a buffer is bounded by what it reported last. -/
theorem Reported.bounds (hr : b.Reported rs) (hb : b.Level) :
    if rs.getLast? = some .aboveHigh then b.low ≤ b.size else b.size ≤ b.high := by
  split
  · rename_i h
    exact hb.above (hr.raised_iff.mpr h)
  · rename_i h
    exact hb.below (hr.low_iff.mpr h)

/-- A push is reported if and only if it takes a low buffer above its high mark. -/
theorem report_push (b : Buffer) (chunk : Bytes) :
    (b.push chunk).2 =
      if b.raised = false ∧ b.high < b.size + chunk.length then some .aboveHigh else none := by
  have hlen : (b.bytes ++ chunk).length = b.size + chunk.length := List.length_append
  unfold push
  dsimp only
  rw [hlen]
  by_cases h : b.raised = false ∧ b.high < b.size + chunk.length
  · rw [if_pos h, if_pos (by simp [h.1, h.2])]
  · rw [if_neg h, if_neg (by simpa using h)]

/-- A drain is reported if and only if it takes a high buffer under its low mark. -/
theorem report_drain (b : Buffer) (most : Nat) :
    (b.drain most).2.2 =
      if b.raised = true ∧ b.size - most < b.low then some .belowLow else none := by
  have hlen : (b.bytes.drop most).length = b.size - most := List.length_drop
  unfold drain
  dsimp only
  rw [hlen]
  by_cases h : b.raised = true ∧ b.size - most < b.low
  · rw [if_pos h, if_pos (by simp [h.1, h.2])]
  · rw [if_neg h, if_neg (by simpa using h)]

end Buffer

/-- Take any high mark and any run of a new buffer. Its reports alternate and
begin with `aboveHigh`. Its length is at least the low mark if `aboveHigh` was
the last of them, and at most the high mark if not. The next push is reported if
it takes a buffer of the second kind above the high mark, the next drain if it
takes one of the first kind under the low mark, and no other action is. What was
drained, followed by what the buffer holds, is what was pushed, and each drain
returns as many bytes as it may. -/
theorem watermark_hysteresis (high : Nat) (as : List Buffer.Action) :
    let new : Buffer := { high := high }
    let b := new.after as
    let rs := new.reports as
    rs = Crossing.alternation rs.length ∧
    (if rs.getLast? = some .aboveHigh then high / 2 ≤ b.size else b.size ≤ high) ∧
    (∀ chunk, (b.push chunk).2 =
      if rs.getLast? ≠ some .aboveHigh ∧ high < b.size + chunk.length then some .aboveHigh
      else none) ∧
    (∀ most, (b.drain most).2.2 =
      if rs.getLast? = some .aboveHigh ∧ b.size - most < high / 2 then some .belowLow else none) ∧
    new.drained as ++ b.bytes = Buffer.pushed as ∧
    ∀ most, (b.drain most).1.length = min most b.size := by
  intro new b rs
  have hr : b.Reported rs := Buffer.reported_after high as
  have hb : b.Level := Buffer.level_after (Buffer.level_new high) as
  have hhigh : b.high = high := new.high_after as
  have hlow : b.low = high / 2 := congrArg (· / 2) hhigh
  have hbounds := hr.bounds hb
  rw [hhigh, hlow] at hbounds
  refine ⟨hr.turns, hbounds, fun chunk => ?_, fun most => ?_, new.drained_append as, b.length_drain⟩
  · rw [b.report_push chunk, hhigh]
    exact if_congr (and_congr_left fun _ => hr.low_iff) rfl rfl
  · rw [b.report_drain most, hlow]
    exact if_congr (and_congr_left fun _ => hr.raised_iff) rfl rfl

/-- With a high mark of one, the first report is the only one. -/
example : ({ high := 1 } : Buffer).reports [.push [1, 2], .drain 2, .push [3, 4]] =
    [.aboveHigh] := by decide

end HttpExchange
