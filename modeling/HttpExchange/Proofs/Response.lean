/-
# Acts on the response side

Two things happen to the response side of a stream: a part of the response
arrives, and credit is granted. For each operation one relation lists what can
become of it (`OnHeaders`, `OnData`, `OnTrailers`, `OnReset`, `OnResume`), so
that what holds of every reply is proved by cases of these and the operations
themselves stay closed.

Key definitions: `Act`, `Response.act`, `Response.dataOwed`.
Key theorems: `Response.onHeaders_spec`, `Response.onData_spec`,
`Response.onTrailers_spec`, `Response.onReset_spec`, `Response.onResume_spec`,
`Response.explicit_act`.
-/
import HttpExchange.Loopback

namespace HttpExchange

/-- What can happen to the response side of a stream. -/
inductive Act
  /-- A part of the response arrives. -/
  | arrive (part : ResponsePart)
  /-- The application grants credit. -/
  | grant (credit : Nat)
  deriving DecidableEq, Repr

/-- What the response side makes of an act. -/
def Response.act (s : Response) : Act → Response.Reply
  | .arrive (.headers block last) => s.onHeaders block last
  | .arrive (.data bytes last) => s.onData bytes last
  | .arrive (.trailers block) => s.onTrailers block
  | .arrive (.reset _) => s.onReset
  | .grant credit => s.resume credit

/-- A status from 200 to 299. -/
def Headers.succeeds (block : Headers) : Bool :=
  match block.status? with
  | some n => 200 ≤ n && n < 300
  | none => false

namespace Response

/-! ### What the helpers do to the state -/

section Fields

variable (s : Response)

theorem receiveEnd_eq (last : Bool) :
    s.receiveEnd last = { s with endReceived := s.endReceived || last } := by
  cases last <;> simp [receiveEnd]

/-- Holding data back appends it to what waits, and touches the buffer only. -/
theorem hold_eq (bytes : Bytes) : ∃ b, (s.hold bytes).state = { s with buffer := some b } ∧
    ({ s with buffer := some b } : Response).waiting = s.waiting ++ bytes := by
  refine ⟨((s.buffer.getD { high := s.high }).push bytes).1, rfl, ?_⟩
  unfold waiting
  cases s.buffer <;> simp

/-- A drain takes from the front of what waits, and touches the buffer only. -/
theorem drain_eq (most : Nat) : ∃ b, s.drain most = (s.waiting.take most, { s with buffer := b }) ∧
    ({ s with buffer := b } : Response).waiting = s.waiting.drop most := by
  unfold drain waiting
  cases h : s.buffer with
  | some b => exact ⟨some (b.drain most).2.1, by simp, by simp⟩
  | none => exact ⟨none, by simp [← h], by simp⟩

end Fields

/-! ### What each operation can do -/

/-- An error ends the stream, or is put off in explicit mode while an
application that has seen headers holds no credit. -/
inductive OnFail (s : Response) : Reply → Prop
  | deferred : s.explicit = true → s.headersForwarded = true → s.credit = 0 →
      OnFail s { state := { s with errorDeferred := true } }
  | delivered : (s.explicit = true → s.headersForwarded = true → 0 < s.credit) →
      OnFail s s.deliverError

theorem onFail (s : Response) : OnFail s s.fail := by
  unfold fail
  split
  · rename_i h
    simp only [Bool.and_eq_true, beq_iff_eq] at h
    exact .deferred h.1.1 h.1.2 h.2
  · rename_i h
    refine .delivered fun hx hf => Nat.pos_of_ne_zero fun hc => h ?_
    simp [hx, hf, hc]

/-- What becomes of headers. -/
inductive OnHeaders (s : Response) (block : Headers) (last : Bool) : Reply → Prop
  | failing {e : StreamError} : StreamError.ofHeaders? block = some e → last = true →
      OnHeaders s block last ({ s.receiveEnd last with error := some e } : Response).fail
  | marked {e : StreamError} : StreamError.ofHeaders? block = some e → last = false →
      OnHeaders s block last { state := { s with error := some e } }
  | completing : StreamError.ofHeaders? block = none → last = true →
      OnHeaders s block last
        { state := { s.receiveEnd last with
            success := block.succeeds, headersForwarded := true, endForwarded := true }
          events := [.headers block true, .complete]
          disposition := .completed block.succeeds }
  | passed : StreamError.ofHeaders? block = none → last = false →
      OnHeaders s block last
        { state := { s with success := block.succeeds, headersForwarded := true }
          events := [.headers block false] }

theorem onHeaders_spec (s : Response) (block : Headers) (last : Bool) :
    OnHeaders s block last (s.onHeaders block last) := by
  unfold onHeaders
  cases hm : StreamError.ofHeaders? block with
  | some e =>
    cases last with
    | true => exact .failing hm rfl
    | false => exact .marked hm rfl
  | none =>
    cases last with
    | true => exact .completing hm rfl
    | false => exact .passed hm rfl

/-- Headers that are not marked as an error are passed on, in either mode. -/
theorem onHeaders_unmarked (s : Response) {block : Headers}
    (hm : StreamError.ofHeaders? block = none) :
    s.onHeaders block false =
      { state := { s with success := block.succeeds, headersForwarded := true }
        events := [.headers block false] } := by
  unfold onHeaders
  rw [hm]
  rfl

/-- What becomes of data. -/
inductive OnData (s : Response) (bytes : Bytes) (last : Bool) : Reply → Prop
  | failing : s.error.isSome → last = true → OnData s bytes last (s.receiveEnd last).fail
  | suppressed : s.error.isSome → last = false → OnData s bytes last { state := s }
  | empty : s.error = none → bytes = [] → last = false → OnData s bytes last { state := s }
  | passed : s.error = none → (bytes = [] → last = true) →
      (s.explicit = true → s.waiting = [] ∧ 0 < s.credit ∧ bytes.length ≤ s.credit) →
      OnData s bytes last ((s.receiveEnd last).forwardData bytes last)
  | split : s.error = none → s.explicit = true → s.waiting = [] → 0 < s.credit →
      s.credit < bytes.length →
      OnData s bytes last ((({ s.receiveEnd last with credit := 0 } : Response).hold
        (bytes.drop s.credit)).after [.data (bytes.take s.credit) false])
  | held : s.error = none → (bytes = [] → last = true) → s.explicit = true →
      (s.waiting = [] → s.credit = 0) → OnData s bytes last ((s.receiveEnd last).hold bytes)

theorem onData_spec (s : Response) (bytes : Bytes) (last : Bool) :
    OnData s bytes last (s.onData bytes last) := by
  have he : (s.receiveEnd last).error = s.error := by rw [receiveEnd_eq]
  have hx : (s.receiveEnd last).explicit = s.explicit := by rw [receiveEnd_eq]
  have hc : (s.receiveEnd last).credit = s.credit := by rw [receiveEnd_eq]
  have hw : (s.receiveEnd last).waiting = s.waiting := by rw [receiveEnd_eq]; rfl
  unfold onData
  simp only [he, hx, hc, hw]
  by_cases herr : s.error.isSome
  · rw [if_pos herr]
    cases last with
    | true => exact .failing herr rfl
    | false => exact .suppressed herr rfl
  rw [if_neg herr]
  have hnone : s.error = none := by simpa using herr
  by_cases h0 : (bytes.isEmpty && !last) = true
  · rw [if_pos h0]
    obtain ⟨hb, hl⟩ : bytes = [] ∧ last = false := by simpa using h0
    subst hl
    exact .empty hnone hb rfl
  rw [if_neg h0]
  have hb : bytes = [] → last = true := by simpa using h0
  by_cases hex : s.explicit = true
  · rw [if_neg (by simp [hex])]
    by_cases hfree : s.waiting = [] ∧ 0 < s.credit
    · rw [if_pos (by simp [hfree])]
      by_cases hfit : bytes.length ≤ s.credit
      · rw [if_pos hfit]
        exact .passed hnone hb fun _ => ⟨hfree.1, hfree.2, hfit⟩
      · rw [if_neg hfit]
        exact .split hnone hex hfree.1 hfree.2 (by omega)
    · rw [if_neg (by simpa using hfree)]
      exact .held hnone hb hex fun hw0 => by simpa [hw0] using hfree
  · rw [if_pos (by simpa using hex)]
    exact .passed hnone hb fun h => absurd h hex

/-- What becomes of trailers. -/
inductive OnTrailers (s : Response) (block : Headers) : Reply → Prop
  | failing : s.error.isSome → OnTrailers s block (s.receiveEnd true).fail
  | parked : s.error = none → s.explicit = true → (s.waiting = [] → s.credit = 0) →
      OnTrailers s block { state := { s.receiveEnd true with trailers := some block } }
  | passed : s.error = none → (s.explicit = true → s.waiting = [] ∧ 0 < s.credit) →
      OnTrailers s block ((s.receiveEnd true).forwardTrailers block)

theorem onTrailers_spec (s : Response) (block : Headers) :
    OnTrailers s block (s.onTrailers block) := by
  unfold onTrailers
  simp only
  split
  · rename_i h; exact .failing h
  · rename_i he
    have hnone : s.error = none := by simpa [receiveEnd] using he
    split
    · rename_i h
      obtain ⟨hx, h⟩ : s.explicit = true ∧ (s.credit = 0 ∨ s.waiting ≠ []) := by
        simpa [receiveEnd, waiting] using h
      exact .parked hnone hx fun hw => h.resolve_right (by simp [hw])
    · rename_i h
      refine .passed hnone fun hx => ?_
      have : s.credit ≠ 0 ∧ s.waiting = [] := by simpa [receiveEnd, waiting, hx] using h
      exact ⟨this.2, Nat.pos_of_ne_zero this.1⟩

/-- What becomes of a reset. -/
inductive OnReset (s : Response) : Reply → Prop
  | ignored : s.endReceived = true → OnReset s { state := s }
  | failing : s.endReceived = false →
      OnReset s ({ s with error := some (s.error.getD .reset) } : Response).fail

theorem onReset_spec (s : Response) : OnReset s s.onReset := by
  unfold onReset
  split
  · rename_i h; exact .ignored h
  · rename_i h; exact .failing (by simpa using h)

/-- The data that waits, as one ongoing event. -/
def dataOwed (s : Response) : List Event :=
  if s.waiting = [] then [] else [.data s.waiting false]

/-- What becomes of a grant. -/
inductive OnResume (s : Response) (credit : Nat) : Reply → Prop
  | finished (t : Response) : s.endPending = true → s.waiting.length ≤ credit →
      OnResume s credit
        { state := t, events := [.data s.waiting true, .complete], disposition := .completed s.success }
  | partly (b : Option Buffer) : credit < s.waiting.length →
      ({ s with buffer := b } : Response).waiting = s.waiting.drop credit →
      OnResume s credit
        { state := { s with credit := 0, buffer := b }, events := [.data (s.waiting.take credit) false] }
  | trailers (t : Response) {block : Headers} : s.trailers = some block →
      s.waiting.length ≤ credit →
      OnResume s credit
        { state := t, events := s.dataOwed ++ [.trailers block, .complete]
          disposition := .completed s.success }
  | failed (t : Response) : s.endPending = false → s.trailers = none → s.errorDeferred = true →
      s.waiting.length ≤ credit →
      OnResume s credit
        { state := t, events := s.dataOwed ++ [.error (s.error.getD .reset)], disposition := .failed }
  | drained (b : Option Buffer) : s.endPending = false → s.trailers = none →
      s.errorDeferred = false → s.waiting.length ≤ credit →
      ({ s with buffer := b } : Response).waiting = [] →
      OnResume s credit
        { state := { s with credit := if s.waiting = [] then credit else 0, buffer := b }
          events := s.dataOwed }

/-- What follows the data, once none waits. -/
theorem onForwardRest {s t : Response} {credit : Nat} (ht : t.waiting = [])
    (hb : ∃ b, t = { s with credit := if s.waiting = [] then credit else 0, buffer := b })
    (he : s.endPending = false) (hl : s.waiting.length ≤ credit) :
    OnResume s credit (t.forwardRest.after s.dataOwed) := by
  obtain ⟨b, rfl⟩ := hb
  unfold forwardRest
  rw [ht]
  simp only [List.isEmpty_nil, Bool.not_true, Bool.false_eq_true, if_false]
  cases hs : s.trailers with
  | some block => exact .trailers _ hs hl
  | none =>
    simp only
    split
    · rename_i hd; exact .failed _ he hs hd hl
    · rename_i hd
      simp only [Reply.after, List.append_nil]
      exact hs ▸ .drained b he hs (by simpa using hd) hl ht

/-- A grant in terms of what waits. -/
theorem resume_eq (s : Response) (credit : Nat) :
    ∃ b, ({ s with buffer := b } : Response).waiting = s.waiting.drop credit ∧
      s.resume credit =
        if !s.waiting.isEmpty || s.endPending then
          if s.endReceived && s.trailers.isNone && (s.waiting.drop credit).isEmpty then
            ({ s with credit := credit, buffer := b } : Response).forwardData
              (s.waiting.take credit) true
          else
            ({ s with credit := 0, buffer := b } : Response).forwardRest.after
              [.data (s.waiting.take credit) false]
        else ({ s with credit := credit } : Response).forwardRest := by
  obtain ⟨b, hd, hw⟩ := drain_eq { s with credit := credit } credit
  have hw' : ({ s with credit := credit, buffer := b } : Response).waiting =
    s.waiting.drop credit := hw
  refine ⟨b, hw, ?_⟩
  unfold resume
  simp only [hd, hw']
  change (if !s.waiting.isEmpty || s.endPending then _ else _) = _
  congr 1
  cases s.endReceived && s.trailers.isNone && (s.waiting.drop credit).isEmpty <;> rfl

theorem onResume_spec {s : Response} (hs : s.endForwarded = false) (credit : Nat) :
    OnResume s credit (s.resume credit) := by
  obtain ⟨b, hw, hr⟩ := s.resume_eq credit
  have hpend : (s.endReceived && s.trailers.isNone) = s.endPending := by simp [endPending, hs]
  rw [hr, hpend]
  by_cases hall : s.waiting.length ≤ credit
  · have hdrop : s.waiting.drop credit = [] := List.drop_eq_nil_of_le hall
    have htake : s.waiting.take credit = s.waiting := List.take_of_length_le hall
    rw [hdrop] at hw
    rw [hdrop, htake]
    cases hp : s.endPending with
    | true => simpa using .finished _ hp hall
    | false =>
      by_cases hne : s.waiting = []
      · rw [if_neg (by simp [hne])]
        have := onForwardRest (t := { s with credit := credit }) hne ⟨s.buffer, by simp [hne]⟩ hp hall
        simpa [Reply.after, dataOwed, hne] using this
      · rw [if_pos (by simp [hne]), if_neg (by simp)]
        have := onForwardRest (t := { s with credit := 0, buffer := b }) hw ⟨b, by simp [hne]⟩ hp hall
        rwa [dataOwed, if_neg hne] at this
  · have hmore : (s.waiting.drop credit).isEmpty = false := by simpa using hall
    have hne : s.waiting.isEmpty = false := by
      cases hs : s.waiting with
      | nil => simp [hs] at hall
      | cons => rfl
    have hrest : ({ s with credit := 0, buffer := b } : Response).forwardRest =
        { state := { s with credit := 0, buffer := b } } := by
      unfold forwardRest
      rw [show ({ s with credit := 0, buffer := b } : Response).waiting = _ from hw, hmore]
      rfl
    rw [hmore, hne, hrest]
    simpa [Reply.after] using .partly b (by omega) hw

/-! ### The mode -/

theorem explicit_fail (s : Response) : s.fail.state.explicit = s.explicit := by
  unfold fail
  split <;> rfl

theorem explicit_forwardRest (s : Response) : s.forwardRest.state.explicit = s.explicit := by
  unfold forwardRest
  split
  · rfl
  · cases s.trailers with
    | some block => rfl
    | none =>
      simp only
      split <;> rfl

theorem explicit_onHeaders (s : Response) (block : Headers) (last : Bool) :
    (s.onHeaders block last).state.explicit = s.explicit := by
  have h := s.onHeaders_spec block last
  generalize s.onHeaders block last = r at h ⊢
  cases h with
  | failing _ _ => rw [explicit_fail, receiveEnd_eq]
  | marked _ _ => rfl
  | completing _ _ => rw [receiveEnd_eq]
  | passed _ _ => rfl

theorem explicit_onData (s : Response) (bytes : Bytes) (last : Bool) :
    (s.onData bytes last).state.explicit = s.explicit := by
  have h := s.onData_spec bytes last
  generalize s.onData bytes last = r at h ⊢
  cases h with
  | failing _ _ => rw [explicit_fail, receiveEnd_eq]
  | suppressed _ _ => rfl
  | empty _ _ _ => rfl
  | passed _ _ _ => rw [receiveEnd_eq]; cases last <;> rfl
  | split _ _ _ _ _ => rw [receiveEnd_eq]; rfl
  | held _ _ _ _ => rw [receiveEnd_eq]; rfl

theorem explicit_onTrailers (s : Response) (block : Headers) :
    (s.onTrailers block).state.explicit = s.explicit := by
  have h := s.onTrailers_spec block
  generalize s.onTrailers block = r at h ⊢
  cases h with
  | failing _ => exact explicit_fail _
  | parked _ _ _ => rfl
  | passed _ _ => rfl

theorem explicit_onReset (s : Response) : s.onReset.state.explicit = s.explicit := by
  have h := s.onReset_spec
  generalize s.onReset = r at h ⊢
  cases h with
  | ignored _ => rfl
  | failing _ => exact explicit_fail _

theorem explicit_resume (s : Response) (credit : Nat) :
    (s.resume credit).state.explicit = s.explicit := by
  obtain ⟨b, -, hr⟩ := s.resume_eq credit
  rw [hr]
  split
  · split
    · rfl
    · exact explicit_forwardRest _
  · exact explicit_forwardRest _

/-- No act changes the mode. -/
theorem explicit_act (s : Response) (a : Act) : (s.act a).state.explicit = s.explicit := by
  match a with
  | .arrive (.headers block last) => exact s.explicit_onHeaders block last
  | .arrive (.data bytes last) => exact s.explicit_onData bytes last
  | .arrive (.trailers block) => exact s.explicit_onTrailers block
  | .arrive (.reset _) => exact s.explicit_onReset
  | .grant credit => exact s.explicit_resume credit

end Response
end HttpExchange
