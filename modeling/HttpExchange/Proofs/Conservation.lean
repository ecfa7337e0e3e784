/-
# Response bytes are conserved

Data that arrives takes one of several ways: it is passed on as it is, cut in
two at the credit, put behind what waits, or taken out of the buffer by a grant.
None of them loses a byte or changes the order: as long as a stream is
registered, what its application was given and what waits are together what
arrived while no error was recorded (`Response.bytes_act`, for one act). And a
stream that has seen headers and ends with nothing but its response leaves
nothing behind (`Response.waiting_of_final`).

Key definitions: `delivered`, `body`, `Response.Carries`.
Key theorems: `Response.bytes_act`, `Response.waiting_of_final`,
`Client.bytes_conserved`.
-/
import HttpExchange.Proofs.History
import HttpExchange.Proofs.Course

namespace HttpExchange

/-! ### The bytes of events and of parts -/

/-- The body bytes of an event. -/
def Event.payload : Event → Bytes
  | data bytes _ => bytes
  | _ => []

/-- The body bytes of a log. -/
def delivered (es : List Event) : Bytes := es.flatMap Event.payload

@[simp] theorem delivered_append (es fs : List Event) :
    delivered (es ++ fs) = delivered es ++ delivered fs := List.flatMap_append

@[simp] theorem delivered_cons (e : Event) (es : List Event) :
    delivered (e :: es) = e.payload ++ delivered es := List.flatMap_cons

@[simp] theorem delivered_nil : delivered [] = [] := rfl

namespace ResponsePart

/-- The body bytes of a part. -/
def payload : ResponsePart → Bytes
  | data bytes _ => bytes
  | _ => []

/-- The part is a header block without the error marker. -/
def unmarked : ResponsePart → Bool
  | headers block _ => (StreamError.ofHeaders? block).isNone
  | _ => false

/-- The part is a header block. -/
def isHeaders : ResponsePart → Bool
  | headers _ _ => true
  | _ => false

end ResponsePart

/-- The body bytes of the parts that arrived after others and found no error
recorded. -/
def bodyAfter (earlier : List ResponsePart) : List ResponsePart → Bytes
  | [] => []
  | p :: ps => (if RecordsError earlier then [] else p.payload) ++ bodyAfter (earlier ++ [p]) ps

/-- The body bytes of the parts that found no error recorded. -/
def body (ps : List ResponsePart) : Bytes := bodyAfter [] ps

theorem bodyAfter_append (earlier ps qs : List ResponsePart) :
    bodyAfter earlier (ps ++ qs) = bodyAfter earlier ps ++ bodyAfter (earlier ++ ps) qs := by
  induction ps generalizing earlier with
  | nil => rw [List.append_nil]; rfl
  | cons p ps ih =>
    rw [List.cons_append, bodyAfter, bodyAfter, ih, List.append_assoc, List.append_assoc,
      List.singleton_append]

/-- One more part adds its bytes, unless an error was recorded before. -/
theorem body_concat (ps : List ResponsePart) (p : ResponsePart) :
    body (ps ++ [p]) = body ps ++ if RecordsError ps then [] else p.payload := by
  unfold body
  rw [bodyAfter_append]
  simp [bodyAfter]

namespace Response

/-! ### One act -/

/-- The body bytes that an act brings to a response side. -/
def brought (s : Response) : Act → Bytes
  | .arrive p => if s.error.isSome then [] else p.payload
  | .grant _ => []

/-- An error delivers no bytes and leaves those that wait. -/
theorem bytes_fail (s : Response) : delivered s.fail.events = [] ∧ s.fail.state.waiting = s.waiting := by
  have h := s.onFail
  generalize s.fail = r at h ⊢
  cases h with
  | deferred _ _ _ | delivered _ => exact ⟨rfl, rfl⟩

theorem waiting_receiveEnd (s : Response) (last : Bool) :
    (s.receiveEnd last).waiting = s.waiting := by
  rw [receiveEnd_eq]
  rfl

theorem bytes_forwardData (s : Response) (bytes : Bytes) (last : Bool) :
    delivered (s.forwardData bytes last).events = bytes ∧
      (s.forwardData bytes last).state.waiting = s.waiting := by
  cases last <;> exact ⟨by simp [forwardData, Event.payload], rfl⟩

theorem bytes_forwardRest (s : Response) :
    delivered s.forwardRest.events = [] ∧ s.forwardRest.state.waiting = s.waiting := by
  unfold forwardRest
  split
  · exact ⟨rfl, rfl⟩
  · cases s.trailers with
    | some block => exact ⟨rfl, rfl⟩
    | none =>
      dsimp only
      split <;> exact ⟨rfl, rfl⟩

theorem waiting_hold (s : Response) (bytes : Bytes) :
    (s.hold bytes).state.waiting = s.waiting ++ bytes := by
  obtain ⟨b, hst, hw⟩ := s.hold_eq bytes
  rw [hst, hw]

theorem bytes_onHeaders (s : Response) (block : Headers) (last : Bool) :
    delivered (s.onHeaders block last).events = [] ∧
      (s.onHeaders block last).state.waiting = s.waiting := by
  have h := s.onHeaders_spec block last
  generalize s.onHeaders block last = r at h ⊢
  cases h with
  | failing _ _ =>
    obtain ⟨he, hw⟩ := bytes_fail ({ s.receiveEnd last with error := some _ } : Response)
    exact ⟨he, hw.trans (s.waiting_receiveEnd last)⟩
  | marked _ _ | passed _ _ => exact ⟨rfl, rfl⟩
  | completing _ _ => exact ⟨rfl, s.waiting_receiveEnd last⟩

/-- Where data is passed on nothing waits. -/
theorem Balanced.waiting_free {s : Response} (hb : s.Balanced)
    (h : s.explicit = true → s.waiting = []) : s.waiting = [] := by
  cases hx : s.explicit with
  | true => exact h hx
  | false => exact (hb.clear (.inl hx)).waiting

theorem bytes_onData {s : Response} (hb : s.Balanced) (bytes : Bytes) (last : Bool) :
    delivered (s.onData bytes last).events ++ (s.onData bytes last).state.waiting =
      s.waiting ++ if s.error.isSome then [] else bytes := by
  have h := s.onData_spec bytes last
  generalize s.onData bytes last = r at h ⊢
  cases h with
  | failing he _ =>
    obtain ⟨hev, hw⟩ := bytes_fail (s.receiveEnd last)
    rw [hev, hw, waiting_receiveEnd, if_pos he, List.append_nil, List.nil_append]
  | suppressed he _ => rw [if_pos he, List.append_nil]; rfl
  | empty _ hnil _ => rw [hnil, ite_self, List.append_nil]; rfl
  | passed he _ hfree =>
    obtain ⟨hev, hw⟩ := bytes_forwardData (s.receiveEnd last) bytes last
    have hnone := hb.waiting_free fun hx => (hfree hx).1
    rw [hev, hw, waiting_receiveEnd, he, hnone]
    simp
  | split he _ hnone _ _ =>
    have hheld := waiting_hold ({ s.receiveEnd last with credit := 0 } : Response)
      (bytes.drop s.credit)
    have hnone' : ({ s.receiveEnd last with credit := 0 } : Response).waiting = [] :=
      (s.waiting_receiveEnd last).trans hnone
    calc delivered [.data (bytes.take s.credit) false] ++
          (({ s.receiveEnd last with credit := 0 } : Response).hold (bytes.drop s.credit)).state.waiting
        = bytes.take s.credit ++ bytes.drop s.credit := by rw [hheld, hnone']; simp [Event.payload]
      _ = s.waiting ++ if s.error.isSome then [] else bytes := by
          rw [List.take_append_drop, hnone, he]
          rfl
  | held he _ _ _ =>
    rw [waiting_hold, waiting_receiveEnd, he]
    rfl

theorem bytes_onTrailers (s : Response) (block : Headers) :
    delivered (s.onTrailers block).events = [] ∧ (s.onTrailers block).state.waiting = s.waiting := by
  have h := s.onTrailers_spec block
  generalize s.onTrailers block = r at h ⊢
  cases h with
  | failing _ => exact bytes_fail (s.receiveEnd true)
  | parked _ _ _ | passed _ _ => exact ⟨rfl, rfl⟩

theorem bytes_onReset (s : Response) :
    delivered s.onReset.events = [] ∧ s.onReset.state.waiting = s.waiting := by
  have h := s.onReset_spec
  generalize s.onReset = r at h ⊢
  cases h with
  | ignored _ => exact ⟨rfl, rfl⟩
  | failing _ => exact bytes_fail _

/-- A grant takes its bytes from the front of those that wait. -/
theorem bytes_resume (s : Response) (credit : Nat) :
    delivered (s.resume credit).events = s.waiting.take credit ∧
      (s.resume credit).state.waiting = s.waiting.drop credit := by
  obtain ⟨b, hw, hr⟩ := s.resume_eq credit
  rw [hr]
  split
  · split
    · obtain ⟨hev, hst⟩ := bytes_forwardData ({ s with credit := credit, buffer := b } : Response)
        (s.waiting.take credit) true
      exact ⟨hev, hst.trans hw⟩
    · obtain ⟨hev, hst⟩ := bytes_forwardRest ({ s with credit := 0, buffer := b } : Response)
      refine ⟨?_, hst.trans hw⟩
      simp [Reply.after, hev, Event.payload]
  · rename_i hnone
    obtain ⟨hev, hst⟩ := bytes_forwardRest ({ s with credit := credit } : Response)
    have hempty : s.waiting = [] := by
      cases hs : s.waiting <;> simp_all
    rw [hempty, List.take_nil, List.drop_nil]
    exact ⟨hev, hst.trans hempty⟩

/-- Whatever happens, what is delivered and what waits afterwards are what
waited before and what has come. -/
theorem bytes_act {s : Response} (hb : s.Balanced) (a : Act) :
    delivered (s.act a).events ++ (s.act a).state.waiting = s.waiting ++ s.brought a := by
  -- parts without data
  have quiet {r : Reply} {p : ResponsePart} (hp : p.payload = [])
      (hr : delivered r.events = [] ∧ r.state.waiting = s.waiting) :
      delivered r.events ++ r.state.waiting = s.waiting ++ s.brought (.arrive p) := by
    have hnone : s.brought (.arrive p) = [] := by simp [brought, hp]
    rw [hr.1, hr.2, hnone, List.append_nil, List.nil_append]
  match a with
  | .arrive (.headers block last) => exact quiet rfl (s.bytes_onHeaders block last)
  | .arrive (.data bytes last) => exact bytes_onData hb bytes last
  | .arrive (.trailers block) => exact quiet rfl (s.bytes_onTrailers block)
  | .arrive (.reset _) => exact quiet rfl s.bytes_onReset
  | .grant credit =>
    obtain ⟨hev, hw⟩ := s.bytes_resume credit
    change delivered (s.resume credit).events ++ (s.resume credit).state.waiting = _
    rw [hev, hw, List.take_append_drop]
    exact (List.append_nil _).symm

/-! ### The last act -/

/-- Where headers were seen, an error that arrives ends a stream only if nothing waits. -/
theorem waiting_of_failing {s t : Response} (hb : s.Balanced) (hh : s.headersForwarded = true)
    (hx : t.explicit = s.explicit) (ht : t.headersForwarded = s.headersForwarded)
    (hc : t.credit = s.credit) (hw : t.waiting = s.waiting)
    (hf : t.fail.disposition.isFinal = true) : t.fail.state.waiting = [] := by
  rw [(bytes_fail t).2, hw]
  have h := t.onFail
  generalize t.fail = r at h hf
  cases h with
  | deferred _ _ _ => cases hf
  | delivered hcredit =>
    refine hb.waiting_free fun hx' => (hb.clear (.inr ?_)).waiting
    exact hc ▸ hcredit (hx.trans hx') (ht.trans hh)

/-- A stream that has seen headers and ends by anything but headers leaves no data behind. -/
theorem waiting_of_final {s : Response} (hb : s.Balanced) (hh : s.headersForwarded = true) {a : Act}
    (hp : ∀ p, a.part? = some p → p.isHeaders = false)
    (hf : (s.act a).disposition.isFinal = true) : (s.act a).state.waiting = [] := by
  match a with
  | .arrive (.headers block last) => cases hp _ rfl
  | .arrive (.data bytes last) =>
    have h := s.onData_spec bytes last
    change (s.onData bytes last).disposition.isFinal = true at hf
    change (s.onData bytes last).state.waiting = []
    generalize s.onData bytes last = r at h hf ⊢
    cases h with
    | failing _ _ => refine waiting_of_failing hb hh ?_ ?_ ?_ ?_ hf <;> rw [receiveEnd_eq]; rfl
    | suppressed _ _ | empty _ _ _ | split _ _ _ _ _ | held _ _ _ _ => cases hf
    | passed _ _ hfree =>
      rw [(bytes_forwardData _ bytes last).2, waiting_receiveEnd]
      exact hb.waiting_free fun hx => (hfree hx).1
  | .arrive (.trailers block) =>
    have h := s.onTrailers_spec block
    change (s.onTrailers block).disposition.isFinal = true at hf
    change (s.onTrailers block).state.waiting = []
    generalize s.onTrailers block = r at h hf ⊢
    cases h with
    | failing _ => exact waiting_of_failing hb hh rfl rfl rfl rfl hf
    | parked _ _ _ => cases hf
    | passed _ hfree => exact hb.waiting_free fun hx => (hfree hx).1
  | .arrive (.reset _) =>
    have h := s.onReset_spec
    change s.onReset.disposition.isFinal = true at hf
    change s.onReset.state.waiting = []
    generalize s.onReset = r at h hf ⊢
    cases h with
    | ignored _ => cases hf
    | failing _ => exact waiting_of_failing hb hh rfl rfl rfl rfl hf
  | .grant credit =>
    have hw := (s.bytes_resume credit).2
    have h := onResume_spec hb.unforwarded credit
    change (s.resume credit).disposition.isFinal = true at hf
    change (s.resume credit).state.waiting = []
    have hall : s.waiting.length ≤ credit := by
      generalize s.resume credit = r at h hf
      cases h with
      | finished _ _ hl | trailers _ _ hl | failed _ _ _ _ hl => exact hl
      | partly _ _ _ | drained _ _ _ _ _ _ => cases hf
    rw [hw, List.drop_eq_nil_of_le hall]

/-! ### Up to the last act -/

theorem seen_fail {s : Response} (hh : s.headersForwarded = true)
    (hf : s.fail.disposition.isFinal = false) : s.fail.state.headersForwarded = true := by
  rw [fail_unfinished hf]
  exact hh

theorem seen_onHeaders {s : Response} {block : Headers} {last : Bool}
    (h : s.headersForwarded = true ∨ StreamError.ofHeaders? block = none)
    (hf : (s.onHeaders block last).disposition.isFinal = false) :
    (s.onHeaders block last).state.headersForwarded = true := by
  have hspec := s.onHeaders_spec block last
  generalize s.onHeaders block last = r at hspec hf ⊢
  cases hspec with
  | failing hm _ =>
    refine seen_fail ?_ hf
    rw [receiveEnd_eq]
    exact h.resolve_right (by simp [hm])
  | marked hm _ => exact h.resolve_right (by simp [hm])
  | completing _ _ => cases hf
  | passed _ _ => rfl

theorem seen_onData {s : Response} {bytes : Bytes} {last : Bool} (hh : s.headersForwarded = true)
    (hf : (s.onData bytes last).disposition.isFinal = false) :
    (s.onData bytes last).state.headersForwarded = true := by
  have hend : (s.receiveEnd last).headersForwarded = true := by
    rw [receiveEnd_eq]
    exact hh
  have hspec := s.onData_spec bytes last
  generalize s.onData bytes last = r at hspec hf ⊢
  cases hspec with
  | failing _ _ => exact seen_fail hend hf
  | suppressed _ _ | empty _ _ _ => exact hh
  | passed _ _ _ =>
    cases last with
    | true => cases hf
    | false => exact hh
  | split _ _ _ _ _ | held _ _ _ _ => exact hend

/-- A stream that has been given headers keeps knowing it, and one that is given
headers knows it. -/
theorem seen_act {s : Response} (hb : s.Balanced) {a : Act}
    (h : s.headersForwarded = true ∨ ∃ p, a.part? = some p ∧ p.unmarked)
    (hf : (s.act a).disposition.isFinal = false) : (s.act a).state.headersForwarded = true := by
  match a with
  | .arrive (.headers block last) =>
    refine seen_onHeaders (h.imp_right ?_) hf
    rintro ⟨p, hp, hu⟩
    cases hp
    simpa [ResponsePart.unmarked] using hu
  | .arrive (.data bytes last) =>
    have hh := h.resolve_right (by simp [Act.part?, ResponsePart.unmarked])
    exact seen_onData hh hf
  | .arrive (.trailers block) =>
    have hh := h.resolve_right (by simp [Act.part?, ResponsePart.unmarked])
    have hspec := s.onTrailers_spec block
    change (s.onTrailers block).disposition.isFinal = false at hf
    change (s.onTrailers block).state.headersForwarded = true
    generalize s.onTrailers block = r at hspec hf ⊢
    cases hspec with
    | failing _ => exact seen_fail hh hf
    | parked _ _ _ => exact hh
    | passed _ _ => cases hf
  | .arrive (.reset _) =>
    have hh := h.resolve_right (by simp [Act.part?, ResponsePart.unmarked])
    have hspec := s.onReset_spec
    change s.onReset.disposition.isFinal = false at hf
    change s.onReset.state.headersForwarded = true
    generalize s.onReset = r at hspec hf ⊢
    cases hspec with
    | ignored _ => exact hh
    | failing _ => exact seen_fail hh hf
  | .grant credit =>
    have hh := h.resolve_right (by simp [Act.part?])
    have hspec := onResume_spec hb.unforwarded credit
    change (s.resume credit).disposition.isFinal = false at hf
    change (s.resume credit).state.headersForwarded = true
    generalize s.resume credit = r at hspec hf ⊢
    cases hspec with
    | finished _ _ _ | trailers _ _ _ | failed _ _ _ _ _ => cases hf
    | partly _ _ _ | drained _ _ _ _ _ _ => exact hh

/-- What a registered stream has been brought and what has been delivered of it. -/
structure Carries (s : Response) (ps : List ResponsePart) (es : List Event) : Prop where
  heard : s.Heard ps
  bytes : delivered es ++ s.waiting = body ps
  seen : (∃ p ∈ ps, p.unmarked) → s.headersForwarded = true

theorem carries_new (explicit : Bool) (high : Nat) :
    ({ explicit := explicit, high := high } : Response).Carries [] [] where
  heard := heard_new explicit high
  bytes := rfl
  seen h := by simp at h

/-- The bytes of a log and of what waits, after any act. -/
theorem Carries.bytes_act {s : Response} {ps : List ResponsePart} {es : List Event}
    (hs : s.Carries ps es) (hb : s.Balanced) (a : Act) :
    delivered (es ++ (s.act a).events) ++ (s.act a).state.waiting = body (ps ++ a.part?.toList) := by
  rw [delivered_append, List.append_assoc, Response.bytes_act hb a, ← List.append_assoc, hs.bytes]
  cases a with
  | grant credit => rw [show ps ++ (Act.grant credit).part?.toList = ps from List.append_nil ps]; exact List.append_nil _
  | arrive p =>
    rw [show ps ++ (Act.arrive p).part?.toList = ps ++ [p] from rfl, body_concat]
    unfold brought
    simp only [hs.heard.error]

theorem carries_act {s : Response} {ps : List ResponsePart} {es : List Event}
    (hs : s.Carries ps es) (hb : s.Balanced) {a : Act} (hf : (s.act a).disposition.isFinal = false) :
    (s.act a).state.Carries (ps ++ a.part?.toList) (es ++ (s.act a).events) where
  heard := heard_act hs.heard hb hf
  bytes := hs.bytes_act hb a
  seen h := by
    refine seen_act hb ?_ hf
    obtain ⟨p, hp, hu⟩ := h
    rcases List.mem_append.mp hp with hp | hp
    · exact .inl (hs.seen ⟨p, hp, hu⟩)
    · exact .inr ⟨p, by simpa using hp, hu⟩

/-- A response of one header block, unmarked and first, leaves nothing behind
when it ends. -/
theorem Carries.waiting_of_final {s : Response} {ps : List ResponsePart} {es : List Event}
    (hs : s.Carries ps es) (hb : s.Balanced) {a : Act} {block : Headers} {last : Bool}
    {rest : List ResponsePart} (hps : ps ++ a.part?.toList = .headers block last :: rest)
    (hu : StreamError.ofHeaders? block = none) (hrest : ∀ p ∈ rest, p.isHeaders = false)
    (hf : (s.act a).disposition.isFinal = true) : (s.act a).state.waiting = [] := by
  cases ps with
  | nil =>
    -- the headers are the first thing that comes, and nothing can wait yet
    obtain ⟨p, rfl⟩ : ∃ p, a = .arrive p := by
      cases a with
      | arrive p => exact ⟨p, rfl⟩
      | grant _ => cases hps
    obtain ⟨rfl, -⟩ := List.cons_eq_cons.mp hps
    have hnone : s.waiting = [] := (List.append_eq_nil_iff.mp hs.bytes).2
    exact (s.bytes_onHeaders block last).2.trans hnone
  | cons p ps =>
    obtain ⟨rfl, hrest'⟩ := List.cons_eq_cons.mp hps
    have hseen : s.headersForwarded = true :=
      hs.seen ⟨.headers block last, by simp, by simp [ResponsePart.unmarked, hu]⟩
    refine Response.waiting_of_final hb hseen (fun p hp => hrest p ?_) hf
    rw [← hrest', hp]
    simp

end Response

/-! ### Runs -/

namespace Client

theorem carries_after {c : Client} (hc : c.Sound) {id : StreamId} (hnone : c.find id = none)
    {ms : List Move} {s : Stream} (hs : (c.after ms).find id = some s) :
    s.response.Carries (c.arrivals id ms) (c.log id ms).flatten :=
  invariant_of_started hc (P := Response.Carries) Response.carries_new
    (fun hb hp hf => Response.carries_act hp hb hf) hnone hs

/-- What tells a stream that it is complete or has failed is an act that ends it. -/
theorem final_of_told {c : Client} (hc : c.Sound) {id : StreamId} {m : Move}
    (h : .complete ∈ told id (c.advance m).2 ∨ ∃ e, .error e ∈ told id (c.advance m).2) :
    ∃ s a, c.find id = some s ∧ m.op.handle? = some id.handle ∧ m.op.act? c.explicit = some a ∧
      (s.response.act a).disposition.isFinal = true ∧
      told id (c.advance m).2 = (s.response.act a).events := by
  have quiet (ht : told id (c.advance m).2 = []) : False := by simp [ht] at h
  cases sees_advance hc id m with
  | absent _ _ ht _ | idle _ _ _ _ ht => exact (quiet ht).elim
  | born _ _ _ _ ho => exact (quiet (by rw [ho]; rfl)).elim
  | cancelled _ _ _ ht _ => simp [ht] at h
  | @answered s _ a hop ha hs _ _ ht _ =>
    refine ⟨s, a, hs, hop, ha, ?_, ht⟩
    have htells := s.response.tells_act a
    rw [← Bool.not_eq_false, htells.unfinished_iff]
    intro hongoing
    rw [ht] at h
    rcases h with h | ⟨e, h⟩ <;> exact absurd (hongoing _ h) (by simp [Event.isOngoing])

/-- A stream that ends other than by a cancel is the last one retired, as its
last act has left it. -/
theorem retired_of_ended {c : Client} (hc : c.Sound) {id : StreamId} {s : Stream}
    (hs : c.find id = some s) {m : Move} {a : Act} (hop : m.op.handle? = some id.handle)
    (ha : m.op.act? c.explicit = some a) (hfin : (s.response.act a).disposition.isFinal = true) :
    ∃ t, (c.advance m).1.retired.getLast? = some t ∧ t.id = id ∧
      t.response = (s.response.act a).state := by
  obtain ⟨hid, b, he⟩ := find_eq_some.mp hs
  obtain ⟨-, hput⟩ := respond_registered hc.disjoint he a
  rw [← advance_of_act? hop ha] at hput
  refine ⟨{ s with response := (s.response.act a).state : Stream }.ended, ?_, hid, rfl⟩
  have hret : (c.advance m).1.retired = (c.settled s a).retired := by rw [← hput.rest]
  rw [hret]
  simp [settled, hfin]

/-- No byte of a response is lost, added or moved. As long as a stream is
registered, what was delivered of it and what waits are together the bytes that
arrived while no error was recorded for it. And if its response is one header
block without the error marker and then anything but headers, nothing waits any
more once it is told that it is complete or has failed. -/
theorem bytes_conserved (config : Config) (draws : Draws) (ms : List Move) (id : StreamId) :
    let c := ofConfig config draws
    (∀ s, (c.after ms).find id = some s →
      delivered (c.log id ms).flatten ++ s.response.waiting = body (c.arrivals id ms)) ∧
    ∀ before m later, ms = before ++ m :: later →
      (.complete ∈ told id ((c.after before).advance m).2 ∨
        ∃ e, .error e ∈ told id ((c.after before).advance m).2) →
      (∃ block last rest, c.arrivals id (before ++ [m]) = .headers block last :: rest ∧
        StreamError.ofHeaders? block = none ∧ ∀ p ∈ rest, p.isHeaders = false) →
      ∃ t, (c.after (before ++ [m])).retired.getLast? = some t ∧ t.id = id ∧
        t.response.waiting = [] ∧
        delivered (c.log id (before ++ [m])).flatten = body (c.arrivals id (before ++ [m])) := by
  intro c
  have hc : c.Sound := sound_ofConfig config draws
  have hnone : c.find id = none := rfl
  refine ⟨fun s hs => (carries_after hc hnone hs).bytes, fun before m later _ hend hfirst => ?_⟩
  obtain ⟨block, last, rest, hparts, hu, hrest⟩ := hfirst
  have hb := sound_after hc before
  obtain ⟨s, a, hs, hop, ha, hfin, ht⟩ := final_of_told hb hend
  have hcarries := carries_after hc hnone hs
  have hbal := (fits_of_find hb hs).balanced
  -- what has arrived by the end of the last act
  have harr : c.arrivals id (before ++ [m]) = c.arrivals id before ++ a.part?.toList := by
    rw [arrivals_append, arrivals_cons, arriving_of_part (by simp [hs]) hop,
      m.op.part?_eq (c.after before).explicit, ha]
    exact congrArg _ (List.append_nil _)
  have hlog : (c.log id (before ++ [m])).flatten =
      (c.log id before).flatten ++ (s.response.act a).events := by
    rw [log_append, List.flatten_append, log_cons, ht]
    simp [log, outputs]
  have hwaiting := hcarries.waiting_of_final hbal (harr ▸ hparts) hu hrest hfin
  obtain ⟨t, hlast, hid, hresponse⟩ := retired_of_ended hb hs hop ha hfin
  refine ⟨t, ?_, hid, hresponse ▸ hwaiting, ?_⟩
  · rw [after_append]
    exact hlast
  · have hbytes := hcarries.bytes_act hbal a
    rw [hwaiting, List.append_nil] at hbytes
    rw [hlog, harr, hbytes]

/-- Six bytes in three frames, one of them cut at the credit, with a reset that
is put off until a grant has taken what waits; the frame after the reset counts
for nothing. -/
theorem bytes_conserved_through_reset :
    let c := ofConfig { flowControl := { explicit := true } } {}
    let id : StreamId := ⟨⟨1⟩, 0⟩
    let before := [Operation.start ⟨1⟩, .onHeaders ⟨1⟩ ⟨[(":status", "200")]⟩ false,
      .resume ⟨1⟩ 2, .onData ⟨1⟩ [1, 2, 3] false, .onData ⟨1⟩ [4] false,
      .onReset ⟨1⟩ .overflow, .onData ⟨1⟩ [5, 6] false].map (Move.mk · .generic)
    let m : Move := ⟨.resume ⟨1⟩ 9, .generic⟩
    ((∃ s, (c.after before).find id = some s ∧ s.response.waiting = [3, 4] ∧
        delivered (c.log id before).flatten ++ s.response.waiting = body (c.arrivals id before)) ∧
      told id ((c.after before).advance m).2 = [.data [3, 4] false, .error .reset]) ∧
    ∃ t, (c.after (before ++ [m])).retired.getLast? = some t ∧ t.id = id ∧
      t.response.waiting = [] ∧
      delivered (c.log id (before ++ [m])).flatten = body (c.arrivals id (before ++ [m])) ∧
      body (c.arrivals id (before ++ [m])) = [1, 2, 3, 4] := by
  intro c id before m
  have hw : ((c.after before).find id).map (·.response.waiting) = some [3, 4] := by decide
  obtain ⟨s, hs, hw⟩ := Option.map_eq_some_iff.mp hw
  have ht : told id ((c.after before).advance m).2 = [.data [3, 4] false, .error .reset] := by decide
  have harr : c.arrivals id (before ++ [m]) = [.headers ⟨[(":status", "200")]⟩ false,
    .data [1, 2, 3] false, .data [4] false, .reset .overflow, .data [5, 6] false] := by decide
  obtain ⟨t, hlast, hid, hempty, hbytes⟩ := (bytes_conserved _ _ (before ++ [m]) id).2 before m []
    rfl (.inr ⟨.reset, by rw [show told id (((ofConfig _ _).after before).advance m).2 = _ from ht]; simp⟩)
    ⟨_, _, _, harr, by decide, by decide⟩
  refine ⟨⟨⟨s, hs, hw, (bytes_conserved _ _ before id).1 s hs⟩, ht⟩, t, hlast, hid, hempty, hbytes, ?_⟩
  rw [harr]
  decide

end Client

end HttpExchange
