/-
# Marked responses

The pipeline says that a request has failed by a response of its own, whose
headers carry the error marker. Such a response is not passed on: whatever
frames follow its headers and whatever credit is granted, its stream stays
silent until the first part that ends or resets it, and is then told the error
that the headers name, and nothing else (`Response.muted_act`). No error of the
reset takes its place, and flow control does not put it off, since no headers
were seen.

Key definitions: `MarkedBy`, `Response.Muted`.
Key theorems: `Response.muted_act`, `Response.Course.muted`,
`Client.marked_response_fails_once`.
-/
import HttpExchange.Proofs.Conservation
import HttpExchange.Proofs.Course
import HttpExchange.Proofs.Transparency

namespace HttpExchange

/-- The parts begin with a header block that is marked with the error, and hold
no other; or there are none yet. -/
def MarkedBy (e : StreamError) (ps : List ResponsePart) : Prop :=
  ps = [] ∨ ∃ block last rest, ps = .headers block last :: rest ∧
    StreamError.ofHeaders? block = some e ∧ ∀ p ∈ rest, p.isHeaders = false

theorem MarkedBy.of_prefix {e : StreamError} {ps qs : List ResponsePart} (hq : MarkedBy e qs)
    (hp : ps <+: qs) : MarkedBy e ps := by
  rcases hq with rfl | ⟨block, last, rest, rfl, hm, hrest⟩
  · exact .inl (List.prefix_nil.mp hp)
  · cases ps with
    | nil => exact .inl rfl
    | cons p ps =>
      obtain ⟨rfl, hrest'⟩ := List.cons_prefix_cons.mp hp
      exact .inr ⟨block, last, ps, rfl, hm, fun q hq => hrest q (hrest'.subset hq)⟩

/-- The part ends a response or cuts it off. -/
def ResponsePart.closes (p : ResponsePart) : Bool := (Act.arrive p).closes

theorem ResponsePart.closes_eq (p : ResponsePart) : p.closes = (p.ends || p.isReset) := by
  cases p with
  | headers _ last | data _ last => exact (Bool.or_false last).symm
  | trailers _ | reset _ => rfl

theorem Act.closes_eq (a : Act) : a.closes = a.part?.any ResponsePart.closes := by
  cases a <;> rfl

namespace Response

/-- Nothing was passed on and nothing is held back, and the error, if any, waits
for the end of the response. -/
structure Muted (s : Response) (error : Option StreamError) : Prop where
  error : s.error = error
  unseen : s.headersForwarded = false
  clear : s.Clear

theorem muted_new (explicit : Bool) (high : Nat) :
    ({ explicit := explicit, high := high } : Response).Muted none where
  error := rfl
  unseen := rfl
  clear := ⟨rfl, rfl, rfl, rfl⟩

/-- What a reply to a muted response side can be: silence, or the error. -/
inductive Mutes (e : StreamError) (closes : Bool) (error : Option StreamError) : Reply → Prop
  | silent {t : Response} : closes = false → t.Muted error →
      Mutes e closes error { state := t }
  | failed {t : Response} : closes = true →
      Mutes e closes error { state := t, events := [.error e], disposition := .failed }

section Act

variable {s : Response} {e : StreamError}

/-- Where no headers were seen, an error is told as soon as it may be. -/
theorem fail_unseen {t : Response} (ht : t.headersForwarded = false) (he : t.error = some e)
    {error : Option StreamError} : Mutes e true error t.fail := by
  have hfail : t.fail = t.deliverError := fail_at_once (.inr ht)
  have hreply : t.deliverError = { t.deliverError with events := [.error e], disposition := .failed } := by
    unfold deliverError
    rw [he]
    rfl
  rw [hfail, hreply]
  exact .failed rfl

theorem muted_headers (hs : s.Muted none) {block : Headers}
    (hm : StreamError.ofHeaders? block = some e) (last : Bool) :
    Mutes e last (some e) (s.onHeaders block last) := by
  cases last with
  | false =>
    rw [onHeaders_marked s hm]
    exact .silent rfl ⟨rfl, hs.unseen, hs.clear.congr rfl rfl rfl rfl⟩
  | true =>
    unfold onHeaders
    rw [hm]
    apply fail_unseen
    · exact hs.unseen
    · rfl

theorem muted_data (hs : s.Muted (some e)) (bytes : Bytes) (last : Bool) :
    Mutes e last (some e) (s.onData bytes last) := by
  rw [onData_marked (by simp [hs.error])]
  cases last with
  | false => exact .silent rfl hs
  | true =>
    rw [if_pos rfl]
    apply fail_unseen
    · exact hs.unseen
    · exact hs.error

theorem muted_trailers (hs : s.Muted (some e)) (block : Headers) :
    Mutes e true (some e) (s.onTrailers block) := by
  have herror : (s.receiveEnd true).error.isSome = true := by
    rw [receiveEnd_eq]
    simp [hs.error]
  unfold onTrailers
  dsimp only
  rw [if_pos herror]
  apply fail_unseen
  · exact hs.unseen
  · exact hs.error

/-- A reset that finds an error leaves it as it is. -/
theorem muted_reset (hs : s.Muted (some e)) : Mutes e true (some e) s.onReset := by
  unfold onReset
  rw [hs.clear.unended, if_neg (by simp), hs.error]
  apply fail_unseen
  · exact hs.unseen
  · rfl

/-- A grant finds nothing to deliver. -/
theorem muted_grant {error : Option StreamError} (hs : s.Muted error) (hb : s.Balanced)
    (credit : Nat) : Mutes e false error (s.resume credit) := by
  have hpending : s.endPending = false := by simp [endPending, hs.clear.unended]
  have h := onResume_spec hb.unforwarded credit
  generalize s.resume credit = r at h ⊢
  cases h with
  | finished _ hp _ =>
    rw [hpending] at hp
    cases hp
  | partly _ hlt _ => simp [hs.clear.waiting] at hlt
  | trailers _ ht _ =>
    rw [hs.clear.trailers] at ht
    cases ht
  | failed _ _ _ hd _ =>
    rw [hs.clear.deferred] at hd
    cases hd
  | drained b _ _ _ _ hw =>
    rw [dataOwed_of_silent hs.clear.waiting]
    exact .silent rfl ⟨hs.error, hs.unseen, hw, hs.clear.trailers, hs.clear.deferred, hs.clear.unended⟩

/-- As long as the parts are those of a marked response, an act is silent, or it
closes the response and tells the error. -/
theorem muted_act (hb : s.Balanced) {ps : List ResponsePart}
    (hs : s.Muted (ps.head?.map fun _ => e)) {a : Act} (hm : MarkedBy e (ps ++ a.part?.toList)) :
    Mutes e a.closes ((ps ++ a.part?.toList).head?.map fun _ => e)
      (s.act a) := by
  cases a with
  | grant credit =>
    rw [show (Act.grant credit).part?.toList = [] from rfl, List.append_nil]
    exact muted_grant hs hb credit
  | arrive p =>
    rcases hm with hm | ⟨block, last, rest, hps, hm, hrest⟩
    · cases (List.append_eq_nil_iff.mp hm).2
    · cases ps with
      | nil =>
        obtain ⟨rfl, -⟩ := List.cons_eq_cons.mp hps
        exact muted_headers hs hm last
      | cons q ps =>
        have hmem : p ∈ rest := by
          obtain ⟨-, rfl⟩ := List.cons_eq_cons.mp hps
          exact List.mem_append_right ps (List.mem_singleton_self p)
        have hp : p.isHeaders = false := hrest p hmem
        match p with
        | .headers _ _ => cases hp
        | .data bytes last => exact muted_data hs bytes last
        | .trailers block => exact muted_trailers hs block
        | .reset _ => exact muted_reset hs

end Act

/-! ### Courses -/

variable {s t : Response} {e : StreamError} {h : List Happening}

/-- The course of a marked response is silent, and none of its parts closes it. -/
theorem Course.muted (hco : Course s h t) (hb : s.Balanced) (hs : s.Muted none)
    (hm : MarkedBy e (Happening.parts h)) :
    t.Muted ((Happening.parts h).head?.map fun _ => e) ∧ Happening.events h = [] ∧
      ∀ p ∈ Happening.parts h, p.closes = false := by
  induction hco with
  | start => exact ⟨hs, rfl, by simp [Happening.parts]⟩
  | @act h t a hco _ hfin ih =>
    rw [Happening.parts_append, parts_happenings] at hm ⊢
    rw [Happening.events_append, events_happenings]
    obtain ⟨ht, hsilent, hopen⟩ := ih (hm.of_prefix (List.prefix_append _ _))
    have hreply := muted_act (hco.balanced hb) ht hm
    generalize t.act a = r at hreply hfin ⊢
    cases hreply with
    | failed _ => cases hfin
    | silent hcl hmuted =>
      refine ⟨hmuted, by rw [hsilent]; rfl, fun p hp => ?_⟩
      rcases List.mem_append.mp hp with hp | hp
      · exact hopen p hp
      · have hpa : a.part? = some p := by simpa using hp
        rw [a.closes_eq, hpa] at hcl
        exact hcl

/-- A marked response ends in its error when a part closes it, and before that
by a cancel only. -/
theorem Ends.muted (he : Ends s h) (hb : s.Balanced) (hs : s.Muted none)
    (hm : MarkedBy e (Happening.parts h)) :
    (Happening.events h = [.error e] ∧ ∃ p ∈ Happening.parts h, p.closes = true) ∨
      (Happening.events h = [.cancel] ∧ ∀ p ∈ Happening.parts h, p.closes = false) := by
  cases he with
  | @cancelled h t hco =>
    have hparts : Happening.parts (h ++ [.told .cancel]) = Happening.parts h := by
      rw [Happening.parts_append]
      exact List.append_nil _
    rw [hparts] at hm ⊢
    obtain ⟨-, hsilent, hopen⟩ := hco.muted hb hs hm
    right
    rw [Happening.events_append, hsilent]
    exact ⟨rfl, hopen⟩
  | @acted h t a hco _ hfin =>
    rw [Happening.parts_append, parts_happenings] at hm ⊢
    rw [Happening.events_append, events_happenings]
    obtain ⟨ht, hsilent, -⟩ := hco.muted hb hs (hm.of_prefix (List.prefix_append _ _))
    have hreply := muted_act (hco.balanced hb) ht hm
    generalize t.act a = r at hreply hfin ⊢
    cases hreply with
    | silent _ _ => cases hfin
    | failed hcl =>
      left
      rw [hsilent]
      refine ⟨rfl, ?_⟩
      rw [a.closes_eq] at hcl
      cases hp : a.part? with
      | none =>
        rw [hp] at hcl
        cases hcl
      | some p =>
        rw [hp] at hcl
        exact ⟨p, by simp, hcl⟩

end Response

namespace Client

variable {c : Client} {id : StreamId}

/-- Only a cancel tells a stream that it is cancelled. -/
theorem cancelled_of_told (hc : c.Sound) {m : Move} (ht : .cancel ∈ told id (c.advance m).2) :
    m.op = .cancel id.handle := by
  cases sees_advance hc id m with
  | absent _ _ h _ | idle _ _ _ _ h =>
    rw [h] at ht
    cases ht
  | born _ _ _ _ h =>
    rw [h] at ht
    cases ht
  | cancelled hop _ _ _ _ => exact hop
  | @answered s _ a _ _ _ _ _ h _ =>
    rw [h] at ht
    have hcancel := (s.response.tells_act a).mem ht
    simp [Event.isOngoing, Event.isEnd] at hcancel

/-- What was told of a stream, once parts of a marked response have arrived. -/
theorem log_of_marked (hc : c.Sound) (hnone : c.find id = none) {e : StreamError}
    {ms : List Move} (hm : MarkedBy e (c.arrivals id ms)) :
    ((∀ p ∈ c.arrivals id ms, p.closes = false) ∧ (c.log id ms).flatten = []) ∨
      ((∀ p ∈ c.arrivals id ms, p.closes = false) ∧ (c.log id ms).flatten = [.cancel]) ∨
      ((∃ p ∈ c.arrivals id ms, p.closes = true) ∧ (c.log id ms).flatten = [.error e] ∧
        (c.after ms).find id = none) := by
  rw [← parts_chronicle] at hm ⊢
  rw [← events_chronicle]
  cases fared_after hc hnone ms with
  | unborn _ hch =>
    rw [hch]
    exact .inl ⟨by simp [Happening.parts], rfl⟩
  | going _ hco =>
    obtain ⟨-, hsilent, hopen⟩ := hco.muted c.balanced_newborn (Response.muted_new _ _) hm
    exact .inl ⟨hopen, hsilent⟩
  | ended hf he =>
    right
    rcases he.muted c.balanced_newborn (Response.muted_new _ _) hm with ⟨hlog, hcl⟩ | ⟨hlog, hopen⟩
    · exact .inr ⟨hcl, hlog, hf⟩
    · exact .inl ⟨hopen, hlog⟩

/-- A stream that is told an error has failed in that move, and is retired. -/
theorem failed_of_told (hc : c.Sound) {m : Move} {e : StreamError}
    (ht : .error e ∈ told id (c.advance m).2) :
    (c.advance m).1.outcomes = { c.outcomes with failure := c.outcomes.failure + 1 } ∧
      ∃ t, (c.advance m).1.retired.getLast? = some t ∧ t.id = id := by
  obtain ⟨s, a, hs, hop, ha, hfin, hev⟩ := final_of_told hc (.inr ⟨e, ht⟩)
  obtain ⟨t, hlast, hid, -⟩ := retired_of_ended hc hs hop ha hfin
  refine ⟨?_, t, hlast, hid⟩
  have hd := (s.response.tells_act a).failed_of_error (hev ▸ ht)
  cases sees_advance hc id m with
  | absent h _ _ _ | born _ h _ _ _ =>
    rw [hs] at h
    cases h
  | idle _ _ _ h _ =>
    obtain ⟨-, hnone, -⟩ := h hop
    rw [ha] at hnone
    cases hnone
  | cancelled h _ _ _ _ =>
    rw [h] at ha
    cases ha
  | answered _ ha' hs' _ _ _ hout =>
    obtain rfl := Option.some.inj (hs.symm.trans hs')
    obtain rfl := Option.some.inj (ha.symm.trans ha')
    rw [hout, hd]
    rfl

/-- While no part has closed a marked response, its stream is told nothing but a
cancel. -/
theorem log_of_open (hc : c.Sound) (hnone : c.find id = none) {e : StreamError} {ms : List Move}
    (hm : MarkedBy e (c.arrivals id ms)) (hopen : ∀ p ∈ c.arrivals id ms, p.closes = false) :
    (c.log id ms).flatten = [] ∨
      ((c.log id ms).flatten = [.cancel] ∧ ∃ m ∈ ms, m.op = .cancel id.handle) := by
  rcases log_of_marked hc hnone hm with ⟨-, hlog⟩ | ⟨-, hlog⟩ | ⟨⟨p, hp, hcl⟩, -⟩
  · exact .inl hlog
  · right
    have hmem : .cancel ∈ (c.log id ms).flatten := by simp [hlog]
    obtain ⟨first, m, later, rfl, ht⟩ := mem_log.mp hmem
    exact ⟨hlog, m, by simp, cancelled_of_told (sound_after hc first) ht⟩
  · rw [hopen p hp] at hcl
    cases hcl

/-- Once a part has closed a marked response, its stream has failed and is gone. -/
theorem log_of_closed (hc : c.Sound) (hnone : c.find id = none) {e : StreamError} {ms : List Move}
    (hm : MarkedBy e (c.arrivals id ms)) (hcl : ∃ p ∈ c.arrivals id ms, p.closes = true) :
    (c.log id ms).flatten = [.error e] ∧ (c.after ms).find id = none := by
  obtain ⟨p, hp, hcl⟩ := hcl
  rcases log_of_marked hc hnone hm with ⟨hopen, -⟩ | ⟨hopen, -⟩ | ⟨-, hlog, hgone⟩
  · rw [hopen p hp] at hcl
    cases hcl
  · rw [hopen p hp] at hcl
    cases hcl
  · exact ⟨hlog, hgone⟩

/-- The move that closes a marked response tells the error. -/
theorem told_at_close (hc : c.Sound) (hnone : c.find id = none) {e : StreamError}
    {before : List Move} {m : Move} (hm : MarkedBy e (c.arrivals id (before ++ [m])))
    (hcl : ∃ p ∈ (c.after before).arriving id m, p.closes = true) :
    told id ((c.after before).advance m).2 = [.error e] := by
  have harr := c.arrivals_concat id before m
  obtain ⟨p, hp, hpc⟩ := hcl
  have hmem : p ∈ c.arrivals id (before ++ [m]) := harr ▸ List.mem_append_right _ hp
  obtain ⟨herror, -⟩ := log_of_closed hc hnone hm ⟨p, hmem, hpc⟩
  rw [flatten_log_concat] at herror
  have hbefore := hm.of_prefix (harr ▸ List.prefix_append _ _)
  rcases log_of_marked hc hnone hbefore with ⟨-, hl⟩ | ⟨-, hl⟩ | ⟨-, -, hgone⟩
  · rwa [hl] at herror
  · simp [hl] at herror
  · -- nothing arrives for a stream that is gone
    rw [arriving_absent hgone] at hp
    cases hp

/-- A response whose first part is a header block marked with an error, and that
has no other header block, is told as that error and nothing else. Up to the
first part that carries the end of the response or cuts it off nothing is told,
unless the stream is cancelled; with that part the log is the error, which is
the one the headers name even if the part is a reset, and the stream is retired
as one failure. -/
theorem marked_response_fails_once (config : Config) (draws : Draws) (ms : List Move)
    (id : StreamId) {block : Headers} {last : Bool} {rest : List ResponsePart} {e : StreamError}
    (hparts : (ofConfig config draws).arrivals id ms = .headers block last :: rest)
    (hmarked : StreamError.ofHeaders? block = some e) (hrest : ∀ p ∈ rest, p.isHeaders = false) :
    let c := ofConfig config draws
    (∀ before, before <+: ms →
      ((∀ p ∈ c.arrivals id before, p.ends = false ∧ p.isReset = false) →
        (c.log id before).flatten = [] ∨
          ((c.log id before).flatten = [.cancel] ∧ ∃ m ∈ before, m.op = .cancel id.handle)) ∧
      ((∃ p ∈ c.arrivals id before, p.ends = true ∨ p.isReset = true) →
        (c.log id before).flatten = [.error e] ∧ ¬ (c.after before).Live id)) ∧
    ∀ before m later, ms = before ++ m :: later →
      (∃ p ∈ (c.after before).arriving id m, p.ends = true ∨ p.isReset = true) →
      told id ((c.after before).advance m).2 = [.error e] ∧
      (c.after (before ++ [m])).outcomes = { (c.after before).outcomes with
        failure := (c.after before).outcomes.failure + 1 } ∧
      ∃ t, (c.after (before ++ [m])).retired.getLast? = some t ∧ t.id = id := by
  intro c
  have hc : c.Sound := sound_ofConfig config draws
  have hnone : c.find id = none := rfl
  have hopen (p : ResponsePart) : p.ends = false ∧ p.isReset = false ↔ p.closes = false := by
    simp [p.closes_eq]
  have hcloses (p : ResponsePart) : p.ends = true ∨ p.isReset = true ↔ p.closes = true := by
    simp [p.closes_eq]
  simp only [hopen, hcloses]
  have hbefore : ∀ before, before <+: ms → MarkedBy e (c.arrivals id before) := by
    rintro before ⟨later, rfl⟩
    have hall : MarkedBy e (c.arrivals id (before ++ later)) :=
      .inr ⟨block, last, rest, hparts, hmarked, hrest⟩
    rw [arrivals_append] at hall
    exact hall.of_prefix (List.prefix_append _ _)
  refine ⟨fun before hpre => ⟨fun hno => ?_, fun hyes => ?_⟩, fun before m later hms hcl => ?_⟩
  · exact log_of_open hc hnone (hbefore before hpre) hno
  · obtain ⟨hlog, hgone⟩ := log_of_closed hc hnone (hbefore before hpre) hyes
    refine ⟨hlog, ?_⟩
    rw [live_iff (sound_after hc before), hgone]
    simp
  · have hpre : before ++ [m] <+: ms := ⟨later, by simp [hms]⟩
    have ht := told_at_close hc hnone (hbefore _ hpre) hcl
    rw [after_append]
    exact ⟨ht, failed_of_told (sound_after hc before) (ht ▸ List.mem_singleton_self _)⟩

/-- Credit is granted before and after marked headers, a frame of the body goes
by, and a reset ends the stream: it is told the error of the headers. -/
theorem marked_response_fails_at_reset :
    let c := ofConfig { flowControl := { explicit := true } } {}
    let id : StreamId := ⟨⟨1⟩, 0⟩
    let block : Headers := ⟨[("x-internal-error-code", "2"), ("x-internal-error-message", "refused")]⟩
    let e : StreamError := ⟨.connectionFailure, some "refused", 1⟩
    let before := [Operation.start ⟨1⟩, .resume ⟨1⟩ 3, .onHeaders ⟨1⟩ block false,
      .onData ⟨1⟩ [1, 2] false, .resume ⟨1⟩ 1].map (Move.mk · .generic)
    let m : Move := ⟨.onReset ⟨1⟩ .overflow, .generic⟩
    (c.arrivals id (before ++ [m]) = [.headers block false, .data [1, 2] false, .reset .overflow] ∧
      StreamError.ofHeaders? block = some e) ∧
      (c.log id before).flatten = [] ∧ told id ((c.after before).advance m).2 = [.error e] ∧
      (c.after (before ++ [m])).outcomes = { failure := 1 } := by
  intro c id block e before m
  have hparts : c.arrivals id (before ++ [m]) =
    [.headers block false, .data [1, 2] false, .reset .overflow] := by decide
  have hmarked : StreamError.ofHeaders? block = some e := by decide
  obtain ⟨hlog, hend⟩ := marked_response_fails_once _ _ (before ++ [m]) id hparts hmarked (by decide)
  have hbefore : c.arrivals id before = [.headers block false, .data [1, 2] false] := by decide
  have harriving : (c.after before).arriving id m = [.reset .overflow] := by decide
  have hreset : ∃ p ∈ (c.after before).arriving id m, p.ends = true ∨ p.isReset = true :=
    ⟨.reset .overflow, by simp [harriving], .inr rfl⟩
  obtain ⟨ht, hout, -⟩ := hend before m [] rfl hreset
  have hopen : ∀ p ∈ c.arrivals id before, p.ends = false ∧ p.isReset = false := by
    rw [hbefore]
    decide
  have huncancelled : ∀ n ∈ before, n.op ≠ .cancel ⟨1⟩ := by decide
  refine ⟨⟨hparts, hmarked⟩, ?_, ht, hout.trans (by decide)⟩
  rcases (hlog before (List.prefix_append _ _)).1 hopen with hsilent | ⟨-, n, hn, hcancel⟩
  · exact hsilent
  · exact absurd hcancel (huncancelled n hn)

end Client
end HttpExchange
