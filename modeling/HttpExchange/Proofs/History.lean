/-
# What a response side remembers

As long as a stream has not ended, its response side knows three things of the
parts that arrived: whether they recorded an error, whether the end was among
them, and what the status of the last header block without a marker was
(`Response.heard_act`).

An error that is recorded need not be what the stream ends in. A header block
without a marker that carries the end, and a grant that takes in all that waits
once the end has arrived, complete the stream all the same
(`Response.completes_iff_overrides`).

Key definitions: `RecordsError`, `succeeding`, `Response.Heard`,
`Response.Overrides`.
Key theorems: `Response.heard_act`, `Response.completes_iff_overrides`.
-/
import HttpExchange.Proofs.Balance
import HttpExchange.Proofs.Reply
import HttpExchange.Proofs.Step

namespace HttpExchange

namespace ResponsePart

/-- The part carries the end of the response. -/
def ends : ResponsePart → Bool
  | headers _ last => last
  | data _ last => last
  | trailers _ => true
  | reset _ => false

/-- The part is a header block with the error marker. -/
def marked : ResponsePart → Bool
  | headers block _ => (StreamError.ofHeaders? block).isSome
  | _ => false

/-- The part is a reset. -/
def isReset : ResponsePart → Bool
  | reset _ => true
  | _ => false

/-- Whether the last status is from 200 to 299, with one more part. -/
def verdict (success : Bool) : ResponsePart → Bool
  | headers block _ => if (StreamError.ofHeaders? block).isSome then success else block.succeeds
  | _ => success

end ResponsePart

/-- A marked header block is among the parts, or a reset before the end. -/
def RecordsError (ps : List ResponsePart) : Prop :=
  (∃ p ∈ ps, p.marked) ∨
    ∃ before p later, ps = before ++ p :: later ∧ p.isReset ∧ ∀ q ∈ before, q.ends = false

theorem recordsError_iff (ps : List ResponsePart) :
    (∃ p ∈ ps, p.marked) ∨ (∃ p ∈ ps.takeWhile fun p => !p.ends, p.isReset) ↔ RecordsError ps := by
  refine or_congr_right ⟨fun ⟨p, hp, hr⟩ => ?_, ?_⟩
  · obtain ⟨before, later, hsplit⟩ := List.append_of_mem hp
    refine ⟨before, p, later ++ ps.dropWhile fun p => !p.ends, ?_, hr, fun q hq => ?_⟩
    · rw [← List.cons_append, ← List.append_assoc, ← hsplit, List.takeWhile_append_dropWhile]
    · have hq' : q ∈ ps.takeWhile fun p => !p.ends := by rw [hsplit]; simp [hq]
      simpa using List.all_eq_true.mp List.all_takeWhile q hq'
  · rintro ⟨before, p, later, rfl, hr, hb⟩
    have hp : p.ends = false := by cases p <;> first | rfl | cases hr
    refine ⟨p, ?_, hr⟩
    rw [List.takeWhile_append_of_pos (by simpa using hb), List.takeWhile_cons_of_pos (by simp [hp])]
    simp

instance (ps : List ResponsePart) : Decidable (RecordsError ps) :=
  decidable_of_iff _ (recordsError_iff ps)

/-- The last header block without a marker had a status from 200 to 299. -/
def succeeding (ps : List ResponsePart) : Bool :=
  ps.foldl ResponsePart.verdict false

theorem recordsError_append (ps : List ResponsePart) (p : ResponsePart) :
    RecordsError (ps ++ [p]) ↔
      RecordsError ps ∨ p.marked ∨ (p.isReset ∧ ps.any ResponsePart.ends = false) := by
  constructor
  · rintro (⟨q, hq, hm⟩ | ⟨before, r, later, h, hr, hb⟩)
    · rcases List.mem_append.mp hq with hq | hq
      · exact .inl (.inl ⟨q, hq, hm⟩)
      · obtain rfl : q = p := by simpa using hq
        exact .inr (.inl hm)
    · rcases List.eq_nil_or_concat later with rfl | ⟨later, q, rfl⟩
      · obtain ⟨rfl, rfl⟩ : ps = before ∧ p = r := by simpa using h
        exact .inr (.inr ⟨hr, by simpa using hb⟩)
      · have hsplit : ps ++ [p] = (before ++ r :: later) ++ [q] := by simpa using h
        obtain ⟨rfl, -⟩ := List.append_inj' hsplit rfl
        exact .inl (.inr ⟨before, r, later, rfl, hr, hb⟩)
  · rintro ((⟨q, hq, hm⟩ | ⟨before, r, later, rfl, hr, hb⟩) | hm | ⟨hr, hb⟩)
    · exact .inl ⟨q, by simp [hq], hm⟩
    · exact .inr ⟨before, r, later ++ [p], by simp, hr, hb⟩
    · exact .inl ⟨p, by simp, hm⟩
    · exact .inr ⟨ps, p, [], rfl, hr, by simpa using hb⟩

namespace Response

/-- What a response side knows of the parts that arrived. -/
structure Heard (s : Response) (ps : List ResponsePart) : Prop where
  error : s.error.isSome ↔ RecordsError ps
  ended : s.endReceived = ps.any ResponsePart.ends
  success : s.success = succeeding ps

theorem heard_new (explicit : Bool) (high : Nat) :
    ({ explicit := explicit, high := high } : Response).Heard [] where
  error := by simp [RecordsError]
  ended := rfl
  success := rfl

/-- An error that is put off changes nothing else. -/
theorem fail_unfinished {s : Response} (hf : s.fail.disposition.isFinal = false) :
    s.fail.state = { s with errorDeferred := true } := by
  have h := s.onFail
  generalize s.fail = r at h hf ⊢
  cases h with
  | deferred _ _ _ => rfl
  | delivered _ => cases hf

/-- The three things a response side knows, after one more part. -/
structure Learns (s : Response) (p : ResponsePart) (t : Response) : Prop where
  error : t.error.isSome = (s.error.isSome || p.marked || (p.isReset && !s.endReceived))
  ended : t.endReceived = (s.endReceived || p.ends)
  success : t.success = p.verdict s.success

theorem learns_onHeaders {s : Response} {block : Headers} {last : Bool}
    (hf : (s.onHeaders block last).disposition.isFinal = false) :
    s.Learns (.headers block last) (s.onHeaders block last).state := by
  have h := s.onHeaders_spec block last
  generalize s.onHeaders block last = r at h hf ⊢
  cases h with
  | failing hm hl =>
    rw [fail_unfinished hf, receiveEnd_eq]
    exact ⟨by simp [ResponsePart.marked, hm], rfl, by simp [ResponsePart.verdict, hm]⟩
  | marked hm hl =>
    exact ⟨by simp [ResponsePart.marked, hm], by simp [ResponsePart.ends, hl],
      by simp [ResponsePart.verdict, hm]⟩
  | completing _ _ => cases hf
  | passed hm hl =>
    exact ⟨by simp [ResponsePart.marked, ResponsePart.isReset, hm],
      by simp [ResponsePart.ends, hl], by simp [ResponsePart.verdict, hm]⟩

theorem learns_onData {s : Response} {bytes : Bytes} {last : Bool}
    (hf : (s.onData bytes last).disposition.isFinal = false) :
    s.Learns (.data bytes last) (s.onData bytes last).state := by
  have knows {t : Response} (he : t.error = s.error)
      (hr : t.endReceived = (s.endReceived || last)) (hs : t.success = s.success) :
      s.Learns (.data bytes last) t :=
    ⟨by simp [he, ResponsePart.marked, ResponsePart.isReset], hr, hs⟩
  have h := s.onData_spec bytes last
  generalize s.onData bytes last = r at h hf ⊢
  cases h with
  | failing _ _ =>
    rw [fail_unfinished hf, receiveEnd_eq]
    exact knows rfl rfl rfl
  | suppressed _ hl | empty _ _ hl => exact knows rfl (by simp [hl]) rfl
  | passed _ _ _ =>
    cases last with
    | true => cases hf
    | false => exact knows rfl (by simp [receiveEnd, forwardData]) rfl
  | split _ _ _ _ _ | held _ _ _ _ =>
    rw [receiveEnd_eq]
    exact knows rfl rfl rfl

theorem learns_onTrailers {s : Response} {block : Headers}
    (hf : (s.onTrailers block).disposition.isFinal = false) :
    s.Learns (.trailers block) (s.onTrailers block).state := by
  have h := s.onTrailers_spec block
  generalize s.onTrailers block = r at h hf ⊢
  cases h with
  | failing _ =>
    rw [fail_unfinished hf]
    exact ⟨by simp [receiveEnd, ResponsePart.marked, ResponsePart.isReset],
      by simp [receiveEnd, ResponsePart.ends], rfl⟩
  | parked _ _ _ =>
    exact ⟨by simp [receiveEnd, ResponsePart.marked, ResponsePart.isReset],
      by simp [receiveEnd, ResponsePart.ends], rfl⟩
  | passed _ _ => cases hf

theorem learns_onReset {s : Response} {reason : ResetReason}
    (hf : s.onReset.disposition.isFinal = false) : s.Learns (.reset reason) s.onReset.state := by
  have h := s.onReset_spec
  generalize s.onReset = r at h hf ⊢
  cases h with
  | ignored he =>
    exact ⟨by simp [he, ResponsePart.marked], by simp [ResponsePart.ends], rfl⟩
  | failing he =>
    rw [fail_unfinished hf]
    exact ⟨by simp [he, ResponsePart.isReset], by simp [ResponsePart.ends], rfl⟩

theorem learns_arrive {s : Response} {p : ResponsePart}
    (hf : (s.act (.arrive p)).disposition.isFinal = false) :
    s.Learns p (s.act (.arrive p)).state := by
  match p with
  | .headers block last => exact learns_onHeaders hf
  | .data bytes last => exact learns_onData hf
  | .trailers block => exact learns_onTrailers hf
  | .reset _ => exact learns_onReset hf

/-- A response side that has not ended remembers one more part. -/
theorem heard_arrive {s : Response} {ps : List ResponsePart} (hs : s.Heard ps) {p : ResponsePart}
    (hf : (s.act (.arrive p)).disposition.isFinal = false) :
    (s.act (.arrive p)).state.Heard (ps ++ [p]) := by
  have ht := learns_arrive hf
  generalize (s.act (.arrive p)).state = t at ht ⊢
  refine ⟨?_, ?_, ?_⟩
  · rw [recordsError_append, ht.error, ← hs.error, ← hs.ended]
    simp [or_assoc]
  · rw [ht.ended, hs.ended, List.any_append]
    simp
  · rw [ht.success, hs.success]
    unfold succeeding
    rw [List.foldl_append]
    rfl

/-- Credit is no news. -/
theorem heard_grant {s : Response} {ps : List ResponsePart} (hs : s.Heard ps)
    (hb : s.Balanced) {credit : Nat} (hf : (s.resume credit).disposition.isFinal = false) :
    (s.resume credit).state.Heard ps := by
  have h := onResume_spec hb.unforwarded credit
  generalize s.resume credit = r at h hf ⊢
  cases h with
  | finished _ _ _ | trailers _ _ _ | failed _ _ _ _ _ => cases hf
  | partly _ _ _ | drained _ _ _ _ _ _ => exact ⟨hs.error, hs.ended, hs.success⟩

/-- What a response side knows after an act that has not ended it. -/
theorem heard_act {s : Response} {ps : List ResponsePart} (hs : s.Heard ps) (hb : s.Balanced)
    {a : Act} (hf : (s.act a).disposition.isFinal = false) :
    (s.act a).state.Heard (ps ++ a.part?.toList) := by
  cases a with
  | arrive p => exact heard_arrive hs hf
  | grant credit =>
    show (s.resume credit).state.Heard (ps ++ [])
    rw [List.append_nil]
    exact heard_grant hs hb hf

/-! ### Errors that are put off -/

/-- An error that was put off stays so until the stream has ended. -/
theorem deferred_act {s : Response} (hb : s.Balanced) (hd : s.errorDeferred = true) {a : Act}
    (hf : (s.act a).disposition.isFinal = false) : (s.act a).state.errorDeferred = true := by
  have failing {t : Response} (ht : t.fail.disposition.isFinal = false) :
      t.fail.state.errorDeferred = true := by rw [fail_unfinished ht]
  match a with
  | .arrive (.headers block last) =>
    have h := s.onHeaders_spec block last
    change (s.onHeaders block last).disposition.isFinal = false at hf
    change (s.onHeaders block last).state.errorDeferred = true
    generalize s.onHeaders block last = r at h hf ⊢
    cases h with
    | failing _ _ => exact failing hf
    | marked _ _ | passed _ _ => exact hd
    | completing _ _ => cases hf
  | .arrive (.data bytes last) =>
    have h := s.onData_spec bytes last
    have hend : (s.receiveEnd last).errorDeferred = true := by rwa [receiveEnd_eq]
    change (s.onData bytes last).disposition.isFinal = false at hf
    change (s.onData bytes last).state.errorDeferred = true
    generalize s.onData bytes last = r at h hf ⊢
    cases h with
    | failing _ _ => exact failing hf
    | suppressed _ _ | empty _ _ _ => exact hd
    | passed _ _ _ =>
      cases last with
      | true => cases hf
      | false => exact hd
    | split _ _ _ _ _ | held _ _ _ _ => exact hend
  | .arrive (.trailers block) =>
    have h := s.onTrailers_spec block
    change (s.onTrailers block).disposition.isFinal = false at hf
    change (s.onTrailers block).state.errorDeferred = true
    generalize s.onTrailers block = r at h hf ⊢
    cases h with
    | failing _ => exact failing hf
    | parked _ _ _ => exact hd
    | passed _ _ => cases hf
  | .arrive (.reset _) =>
    have h := s.onReset_spec
    change s.onReset.disposition.isFinal = false at hf
    change s.onReset.state.errorDeferred = true
    generalize s.onReset = r at h hf ⊢
    cases h with
    | ignored _ => exact hd
    | failing _ => exact failing hf
  | .grant credit =>
    have h := onResume_spec hb.unforwarded credit
    change (s.resume credit).disposition.isFinal = false at hf
    change (s.resume credit).state.errorDeferred = true
    generalize s.resume credit = r at h hf ⊢
    cases h with
    | finished _ _ _ | trailers _ _ _ | failed _ _ _ _ _ => cases hf
    | partly _ _ _ => exact hd
    | drained _ _ _ hnone _ _ =>
      rw [hnone] at hd
      cases hd

/-! ### Errors that are overridden -/

/-- What completes a stream although an error is recorded. -/
inductive Overrides (s : Response) : Act → Bool → Prop
  /-- A header block without a marker that carries the end. -/
  | headers {block : Headers} : StreamError.ofHeaders? block = none →
      Overrides s (.arrive (.headers block true)) block.succeeds
  /-- A grant that takes in all that waits, once the end has arrived. -/
  | grant {credit : Nat} : s.endReceived = true → s.waiting.length ≤ credit →
      Overrides s (.grant credit) s.success

/-- Only a completed stream is told that it is complete. -/
theorem Tells.complete_iff {l : List Event} {d : Disposition} (h : Tells l d) :
    .complete ∈ l ↔ ∃ success, d = .completed success := by
  have absent {l : List Event} (hl : ∀ e ∈ l, e.isOngoing) : .complete ∉ l :=
    fun hm => absurd (hl _ hm) (by simp [Event.isOngoing])
  cases h with
  | unfinished hl => simp [absent hl]
  | completed success _ _ => simp
  | failed e hl => simp [absent hl]

theorem fail_not_completed (s : Response) (success : Bool) :
    s.fail.disposition ≠ .completed success := by
  have h := s.onFail
  generalize s.fail = r at h ⊢
  cases h <;> simp [deliverError]

theorem onHeaders_overrides (s : Response) (block : Headers) (last success : Bool) :
    (s.onHeaders block last).disposition = .completed success ↔
      s.Overrides (.arrive (.headers block last)) success := by
  have h := s.onHeaders_spec block last
  generalize s.onHeaders block last = r at h ⊢
  constructor
  · intro hd
    cases h with
    | failing _ _ => exact absurd hd (fail_not_completed _ _)
    | marked _ _ | passed _ _ => cases hd
    | completing hm hl =>
      cases hd
      exact hl ▸ .headers hm
  · intro ho
    obtain ⟨hm, rfl⟩ : StreamError.ofHeaders? block = none ∧ last = true := by
      cases ho with
      | headers hm => exact ⟨hm, rfl⟩
    cases h with
    | failing hm' _ | marked hm' _ =>
      rw [hm] at hm'
      cases hm'
    | completing _ _ =>
      cases ho
      rfl
    | passed _ hl => cases hl

/-- A grant completes a stream that has an error recorded as it completes any other. -/
theorem resume_overrides {s : Response} (hb : s.Balanced) (credit : Nat) (success : Bool) :
    (s.resume credit).disposition = .completed success ↔ s.Overrides (.grant credit) success := by
  have hend : s.endPending = (s.endReceived && s.trailers.isNone) := by
    simp [endPending, hb.unforwarded]
  have h := onResume_spec hb.unforwarded credit
  generalize s.resume credit = r at h ⊢
  constructor
  · intro hd
    cases h with
    | finished _ hp hl =>
      cases hd
      rw [hp] at hend
      exact .grant (Bool.and_eq_true_iff.mp hend.symm).1 hl
    | partly _ _ _ => cases hd
    | trailers _ ht hl =>
      cases hd
      exact .grant (hb.parked (by simp [ht])) hl
    | failed _ _ _ _ _ => cases hd
    | drained _ _ _ _ _ _ => cases hd
  · rintro ⟨⟩
    rename_i he hl
    cases h with
    | finished _ _ _ | trailers _ _ _ => rfl
    | partly _ hlt _ => omega
    | failed _ hp ht _ _ | drained _ hp ht _ _ _ => simp [hp, ht, he] at hend

/-- Once an error is recorded, a stream completes by what overrides the error
and by nothing else. -/
theorem completes_iff_overrides {s : Response} (hb : s.Balanced) (he : s.error.isSome) (a : Act)
    (success : Bool) :
    (s.act a).disposition = .completed success ↔ s.Overrides a success := by
  match a with
  | .arrive (.headers block last) => exact s.onHeaders_overrides block last success
  | .grant credit => exact resume_overrides hb credit success
  | .arrive (.data bytes last) =>
    refine ⟨fun hd => ?_, fun ho => by cases ho⟩
    have h := s.onData_spec bytes last
    change (s.onData bytes last).disposition = _ at hd
    generalize s.onData bytes last = r at h hd
    cases h with
    | failing _ _ => exact absurd hd (fail_not_completed _ _)
    | suppressed _ _ => cases hd
    | empty hn _ _ | passed hn _ _ | split hn _ _ _ _ | held hn _ _ _ => simp [hn] at he
  | .arrive (.trailers block) =>
    refine ⟨fun hd => ?_, fun ho => by cases ho⟩
    have h := s.onTrailers_spec block
    change (s.onTrailers block).disposition = _ at hd
    generalize s.onTrailers block = r at h hd
    cases h with
    | failing _ => exact absurd hd (fail_not_completed _ _)
    | parked hn _ _ | passed hn _ => simp [hn] at he
  | .arrive (.reset reason) =>
    refine ⟨fun hd => ?_, fun ho => by cases ho⟩
    have h := s.onReset_spec
    change s.onReset.disposition = _ at hd
    generalize s.onReset = r at h hd
    cases h with
    | ignored _ => cases hd
    | failing _ => exact absurd hd (fail_not_completed _ _)

end Response
end HttpExchange
