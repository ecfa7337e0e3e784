/-
# Credit and what is held back

Outstanding credit and output held back never coexist: a response side that is
free to pass things on, because it runs without flow control or because it
holds credit, holds nothing back (`Response.Balanced`). Every act keeps this as
long as it does not end the stream (`Response.balanced_act`).

Key definitions: `Response.Clear`, `Response.Balanced`.
Key theorem: `Response.balanced_act`.
-/
import HttpExchange.Proofs.Response

namespace HttpExchange
namespace Response

/-- Nothing is held back, and the end has not been seen. -/
structure Clear (s : Response) : Prop where
  waiting : s.waiting = []
  trailers : s.trailers = none
  deferred : s.errorDeferred = false
  unended : s.endReceived = false

/-- What holds of the response side of every stream that has not ended. Output
is held back only in explicit mode, and only while there is no credit. -/
structure Balanced (s : Response) : Prop where
  unforwarded : s.endForwarded = false
  clear : s.explicit = false ∨ 0 < s.credit → s.Clear
  deferred : s.errorDeferred = true → s.error.isSome ∧ s.headersForwarded = true
  parked : s.trailers.isSome → s.endReceived = true

theorem balanced_new (explicit : Bool) (high : Nat) :
    ({ explicit := explicit, high := high } : Response).Balanced where
  unforwarded := rfl
  clear _ := ⟨rfl, rfl, rfl, rfl⟩
  deferred h := by simp at h
  parked h := by simp at h

theorem Clear.congr {s t : Response} (hs : s.Clear) (hb : t.buffer = s.buffer)
    (ht : t.trailers = s.trailers) (hd : t.errorDeferred = s.errorDeferred)
    (he : t.endReceived = s.endReceived) : t.Clear where
  waiting := by rw [← hs.waiting]; unfold Response.waiting; rw [hb]
  trailers := ht.trans hs.trailers
  deferred := hd.trans hs.deferred
  unended := he.trans hs.unended

/-- Explicit mode without credit holds back what it likes. -/
theorem Balanced.of_no_credit {s : Response} (hx : s.explicit = true) (hc : s.credit = 0)
    (hf : s.endForwarded = false)
    (hd : s.errorDeferred = true → s.error.isSome ∧ s.headersForwarded = true)
    (hp : s.trailers.isSome → s.endReceived = true) : s.Balanced :=
  ⟨hf, fun h => by simp [hx, hc] at h, hd, hp⟩

/-- There is no credit where data has to be held back. -/
theorem Balanced.no_credit {s : Response} (hs : s.Balanced) (h : s.waiting = [] → s.credit = 0) :
    s.credit = 0 := by
  refine Nat.eq_zero_of_not_pos fun hc => ?_
  have := h (hs.clear (.inr hc)).waiting
  omega

/-- An error that does not end the stream is put off. -/
theorem Balanced.fail {s : Response} (hs : s.endForwarded = false) (he : s.error.isSome)
    (hp : s.trailers.isSome → s.endReceived = true)
    (hf : s.fail.disposition.isFinal = false) : s.fail.state.Balanced := by
  have h := s.onFail
  generalize s.fail = r at h hf ⊢
  cases h with
  | deferred hx hh hc => exact .of_no_credit hx hc hs (fun _ => ⟨he, hh⟩) hp
  | delivered _ => cases hf

theorem balanced_onHeaders {s : Response} (hs : s.Balanced) {block : Headers} {last : Bool}
    (hf : (s.onHeaders block last).disposition.isFinal = false) :
    (s.onHeaders block last).state.Balanced := by
  have h := s.onHeaders_spec block last
  generalize s.onHeaders block last = r at h hf ⊢
  cases h with
  | failing _ hl =>
    refine .fail ?_ rfl (fun _ => ?_) hf <;> rw [receiveEnd_eq]
    · exact hs.unforwarded
    · simp [hl]
  | marked _ _ =>
    exact ⟨hs.unforwarded, fun h => (hs.clear h).congr rfl rfl rfl rfl,
      fun h => ⟨rfl, (hs.deferred h).2⟩, hs.parked⟩
  | completing _ _ => cases hf
  | passed _ _ =>
    exact ⟨hs.unforwarded, fun h => (hs.clear h).congr rfl rfl rfl rfl,
      fun h => ⟨(hs.deferred h).1, rfl⟩, hs.parked⟩

theorem balanced_onData {s : Response} (hs : s.Balanced) {bytes : Bytes} {last : Bool}
    (hf : (s.onData bytes last).disposition.isFinal = false) :
    (s.onData bytes last).state.Balanced := by
  have hp : s.trailers.isSome → (s.endReceived || last) = true := fun h => by simp [hs.parked h]
  have h := s.onData_spec bytes last
  generalize s.onData bytes last = r at h hf ⊢
  cases h with
  | failing he _ =>
    refine .fail ?_ ?_ ?_ hf <;> rw [receiveEnd_eq]
    · exact hs.unforwarded
    · exact he
    · exact hp
  | suppressed _ _ => exact hs
  | empty _ _ _ => exact hs
  | passed _ _ hfree =>
    cases last with
    | true => cases hf
    | false =>
      exact ⟨hs.unforwarded, fun h => (hs.clear (h.imp id fun h => by simp [forwardData] at h)).congr
        rfl rfl rfl rfl, hs.deferred, hs.parked⟩
  | split _ hx _ _ _ =>
    rw [receiveEnd_eq]
    obtain ⟨b, hb, -⟩ := hold_eq
      { s with endReceived := s.endReceived || last, credit := 0 } (bytes.drop s.credit)
    change (hold _ _).state.Balanced
    rw [hb]
    exact .of_no_credit hx rfl hs.unforwarded hs.deferred hp
  | held _ _ hx hfree =>
    rw [receiveEnd_eq]
    obtain ⟨b, hb, -⟩ := hold_eq { s with endReceived := s.endReceived || last } bytes
    rw [hb]
    exact .of_no_credit hx (hs.no_credit hfree) hs.unforwarded hs.deferred hp

theorem balanced_onTrailers {s : Response} (hs : s.Balanced) {block : Headers}
    (hf : (s.onTrailers block).disposition.isFinal = false) :
    (s.onTrailers block).state.Balanced := by
  have h := s.onTrailers_spec block
  generalize s.onTrailers block = r at h hf ⊢
  cases h with
  | failing he => exact .fail hs.unforwarded he (fun _ => rfl) hf
  | parked _ hx hfree =>
    exact .of_no_credit hx (hs.no_credit hfree) hs.unforwarded hs.deferred fun _ => rfl
  | passed _ _ => cases hf

theorem balanced_onReset {s : Response} (hs : s.Balanced)
    (hf : s.onReset.disposition.isFinal = false) : s.onReset.state.Balanced := by
  have h := s.onReset_spec
  generalize s.onReset = r at h hf ⊢
  cases h with
  | ignored _ => exact hs
  | failing _ => exact .fail hs.unforwarded rfl hs.parked hf

theorem balanced_resume {s : Response} (hs : s.Balanced) (hx : s.explicit = true) {credit : Nat}
    (hf : (s.resume credit).disposition.isFinal = false) : (s.resume credit).state.Balanced := by
  have h := onResume_spec hs.unforwarded credit
  generalize s.resume credit = r at h hf ⊢
  cases h with
  | finished _ _ _ => cases hf
  | partly b _ _ => exact .of_no_credit hx rfl hs.unforwarded hs.deferred hs.parked
  | trailers _ _ _ => cases hf
  | failed _ _ _ _ _ => cases hf
  | drained b hp ht hd _ hw =>
    refine ⟨hs.unforwarded, fun _ => ⟨hw, ht, hd, ?_⟩, hs.deferred, hs.parked⟩
    simpa [endPending, hs.unforwarded, ht] using hp

/-- As long as a stream has not ended, what it holds back and its credit stay in
balance, whatever happens. -/
theorem balanced_act {s : Response} (hs : s.Balanced) {a : Act}
    (hx : s.explicit = true ∨ ∃ p, a = .arrive p)
    (hf : (s.act a).disposition.isFinal = false) : (s.act a).state.Balanced := by
  match a with
  | .arrive (.headers block last) => exact balanced_onHeaders hs hf
  | .arrive (.data bytes last) => exact balanced_onData hs hf
  | .arrive (.trailers block) => exact balanced_onTrailers hs hf
  | .arrive (.reset _) => exact balanced_onReset hs hf
  | .grant credit => exact balanced_resume hs (hx.resolve_right (by simp)) hf

end Response
end HttpExchange
