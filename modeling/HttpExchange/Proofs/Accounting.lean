/-
# Accounts of streams

Every stream that was started is either registered or has ended in one of three
ways, and which of them its log tells: by its last event and, where this is
`complete`, by the last headers that were passed on. The outcomes of a client are
the numbers of streams that ended so, at every moment of a run, and its counters
show the same numbers while they are switched on.

The client adds to the outcomes when a stream is settled, which can be long after
the part of the response that decided it. What carries over is the flag of the
response side (`Client.success_of_find`): it says of a registered stream what the
last headers in its log say.

Key definitions: `Outcome`, `outcome?`, `Client.starts`, `Client.opened`,
`Client.accounts`, `Client.Books`, `Client.statuses`.
Key theorems: `Response.follows_act`, `Client.books_advance`,
`Client.count_statuses`, `Client.accounts_balance`.
-/
import Mathlib.Data.List.Induction
import Mathlib.Data.List.Nodup
import HttpExchange.Proofs.Course
import HttpExchange.Proofs.Ending
import HttpExchange.Proofs.LiveHandles

namespace HttpExchange

/-! ### What a log says of its stream -/

/-- The ways a stream can end. -/
inductive Outcome
  | success
  | failure
  | cancel
  deriving DecidableEq, Repr

/-- The headers that an event passes on. -/
def Event.block? : Event → Option Headers
  | .headers block _ => some block
  | _ => none

/-- The last headers that were passed on. -/
def lastBlock? (log : List Event) : Option Headers := (log.filterMap Event.block?).getLast?

/-- The last headers that were passed on had a status from 200 to 299. -/
def succeeded (log : List Event) : Bool := (lastBlock? log).any Headers.succeeds

/-- How the stream with this log has ended. -/
def outcome? (log : List Event) : Option Outcome :=
  match log.getLast? with
  | some .complete => some (if succeeded log then .success else .failure)
  | some (.error _) => some .failure
  | some .cancel => some .cancel
  | _ => none

/-- How a stream of that disposition has ended. -/
def Disposition.outcome? : Disposition → Option Outcome
  | .unfinished => none
  | .completed success => some (if success then .success else .failure)
  | .failed => some .failure

/-- How many streams have ended so. -/
def Outcomes.of (o : Outcomes) : Outcome → Nat
  | .success => o.success
  | .failure => o.failure
  | .cancel => o.cancel

/-- The counter of the streams that have ended so. -/
def Outcome.metric : Outcome → Metric
  | .success => .success
  | .failure => .failure
  | .cancel => .cancel

/-- What further events make of the flag for success. -/
def carried (success : Bool) (events : List Event) : Bool :=
  (lastBlock? events).elim success Headers.succeeds

theorem carried_quiet {events : List Event} (h : events.filterMap Event.block? = [])
    (success : Bool) : carried success events = success := by
  unfold carried lastBlock?
  rw [h]
  rfl

theorem succeeded_append (xs ys : List Event) :
    succeeded (xs ++ ys) = carried (succeeded xs) ys := by
  unfold carried succeeded lastBlock?
  rw [List.filterMap_append, List.getLast?_append]
  cases (ys.filterMap Event.block?).getLast? <;> rfl

theorem outcome_of_open {log : List Event} (hlog : ∀ e ∈ log, e.isOngoing) :
    outcome? log = none := by
  unfold outcome?
  cases hlast : log.getLast? with
  | none => rfl
  | some e =>
    have he := hlog e (List.mem_of_getLast? hlast)
    cases e with
    | headers _ _ | data _ _ | trailers _ => rfl
    | error _ | complete | cancel => cases he

/-! ### Settling and counting -/

theorem Disposition.outcome_of_final {x : Disposition} (hx : x.isFinal) :
    ∃ o, x.outcome? = some o := by
  cases x with
  | unfinished => cases hx
  | completed success => exact ⟨_, rfl⟩
  | failed => exact ⟨_, rfl⟩

theorem Disposition.outcome_of_unfinished {x : Disposition} (hx : x.isFinal = false) :
    x.outcome? = none := by
  cases x with
  | unfinished => rfl
  | completed _ | failed => cases hx

theorem Outcomes.of_settle (o : Outcomes) (d : Disposition) (x : Outcome) :
    (o.settle d).of x = o.of x + [d.outcome?].count (some x) := by
  match d with
  | .unfinished | .completed true | .completed false | .failed => cases x <;> rfl

theorem Counters.settle_off {k : Counters} (hk : k.enabled = false) (x : Disposition) :
    k.settle x = k := by
  have hrecord (m : Metric) : k.record m = k := if_neg (by simp [hk])
  match x with
  | .unfinished => rfl
  | .completed true => exact hrecord .success
  | .completed false | .failed => exact hrecord .failure

theorem Counters.enabled_settle (k : Counters) (x : Disposition) :
    (k.settle x).enabled = k.enabled := by
  match x with
  | .unfinished => rfl
  | .completed true | .completed false | .failed => exact k.enabled_record _

/-- A settled stream is counted under its outcome and nowhere else. -/
theorem Counters.get_settle {k : Counters} (hk : k.enabled = true) (x : Disposition) (n : Metric) :
    (k.settle x).get n = k.get n + [x.outcome?.map Outcome.metric].count (some n) := by
  have hrecord (m : Metric) : (k.record m).get n = k.get n + [some m].count (some n) := by
    rw [Counters.get_record, hk]
    cases m <;> cases n <;> rfl
  match x with
  | .unfinished => rfl
  | .completed true | .completed false | .failed => exact hrecord _

/-- The entries of a list that are no outcome or one of the three. -/
theorem length_eq_counts (l : List (Option Outcome)) :
    l.length = l.count (some .success) + l.count (some .failure) + l.count (some .cancel) +
      l.count none := by
  induction l with
  | nil => rfl
  | cons x l ih =>
    simp only [List.length_cons, List.count_cons, ih]
    match x with
    | none | some .success | some .failure | some .cancel =>
      simp
      omega

/-- Where a function is changed at one place of a list, its values are counted
anew there only. -/
theorem count_map_of_change {α β : Type} [DecidableEq α] [BEq β] {l : List α}
    (hl : l.Nodup) {a : α} (ha : a ∈ l) {f g : α → β} (hfg : ∀ b, b ≠ a → g b = f b) (x : β) :
    (l.map g).count x + [f a].count x = (l.map f).count x + [g a].count x := by
  have hperm := List.perm_cons_erase ha
  have hrest : (l.erase a).map g = (l.erase a).map f := by
    refine List.map_congr_left fun b hb => hfg b ?_
    rintro rfl
    exact hl.not_mem_erase hb
  rw [(hperm.map g).count_eq, (hperm.map f).count_eq, List.map_cons, List.map_cons, hrest]
  simp only [List.count_cons, List.count_nil]
  omega

/-! ### The flag for success -/

namespace Response

/-- A reply that passes no headers on leaves the flag alone, and completes by it. -/
structure Quiet (s : Response) (r : Reply) : Prop where
  blocks : r.events.filterMap Event.block? = []
  success : r.state.success = s.success
  completed : ∀ {success}, r.disposition = .completed success → success = s.success

theorem Quiet.of_success {s t : Response} {r : Reply} (h : Quiet t r)
    (hs : t.success = s.success) : Quiet s r :=
  ⟨h.blocks, h.success.trans hs, fun hd => (h.completed hd).trans hs⟩

theorem Quiet.after {s : Response} {r : Reply} (h : Quiet s r) {earlier : List Event}
    (he : earlier.filterMap Event.block? = []) : Quiet s (r.after earlier) where
  blocks := by
    show (earlier ++ r.events).filterMap Event.block? = []
    rw [List.filterMap_append, he, h.blocks]
    rfl
  success := h.success
  completed := h.completed

section Quiet

variable (s : Response)

theorem quiet_fail : Quiet s s.fail := by
  unfold fail
  split
  · exact ⟨rfl, rfl, nofun⟩
  · exact ⟨rfl, rfl, nofun⟩

theorem quiet_forwardData (bytes : Bytes) (last : Bool) : Quiet s (s.forwardData bytes last) := by
  cases last with
  | true => exact ⟨rfl, rfl, fun hd => (Disposition.completed.inj hd).symm⟩
  | false => exact ⟨rfl, rfl, nofun⟩

theorem quiet_forwardTrailers (block : Headers) : Quiet s (s.forwardTrailers block) :=
  ⟨rfl, rfl, fun hd => (Disposition.completed.inj hd).symm⟩

theorem quiet_hold (bytes : Bytes) : Quiet s (s.hold bytes) := ⟨rfl, rfl, nofun⟩

theorem quiet_forwardRest : Quiet s s.forwardRest := by
  unfold forwardRest
  split
  · exact ⟨rfl, rfl, nofun⟩
  · cases s.trailers with
    | some block => exact ⟨rfl, rfl, fun hd => (Disposition.completed.inj hd).symm⟩
    | none =>
      dsimp only
      split
      · exact ⟨rfl, rfl, nofun⟩
      · exact ⟨rfl, rfl, nofun⟩

theorem success_receiveEnd (last : Bool) : (s.receiveEnd last).success = s.success := by
  rw [receiveEnd_eq]

theorem quiet_onData (bytes : Bytes) (last : Bool) : Quiet s (s.onData bytes last) := by
  have hend := s.success_receiveEnd last
  have h := s.onData_spec bytes last
  generalize s.onData bytes last = r at h ⊢
  cases h with
  | failing _ _ => exact (quiet_fail _).of_success hend
  | suppressed _ _ | empty _ _ _ => exact ⟨rfl, rfl, nofun⟩
  | passed _ _ _ => exact (quiet_forwardData _ bytes last).of_success hend
  | split _ _ _ _ _ =>
    refine Quiet.after (Quiet.of_success (quiet_hold _ _) ?_) ?_
    · exact hend
    · rfl
  | held _ _ _ _ => exact (quiet_hold _ _).of_success hend

theorem quiet_onTrailers (block : Headers) : Quiet s (s.onTrailers block) := by
  have hend := s.success_receiveEnd true
  have h := s.onTrailers_spec block
  generalize s.onTrailers block = r at h ⊢
  cases h with
  | failing _ => exact (quiet_fail _).of_success hend
  | parked _ _ _ => exact ⟨rfl, hend, nofun⟩
  | passed _ _ => exact (quiet_forwardTrailers _ block).of_success hend

theorem quiet_onReset : Quiet s s.onReset := by
  have h := s.onReset_spec
  generalize s.onReset = r at h ⊢
  cases h with
  | ignored _ => exact ⟨rfl, rfl, nofun⟩
  | failing _ => exact (quiet_fail _).of_success rfl

theorem quiet_resume (credit : Nat) : Quiet s (s.resume credit) := by
  obtain ⟨b, -, hr⟩ := s.resume_eq credit
  rw [hr]
  split
  · split
    · exact (quiet_forwardData _ _ _).of_success rfl
    · refine Quiet.after (Quiet.of_success (quiet_forwardRest _) ?_) ?_
      · rfl
      · rfl
  · exact (quiet_forwardRest _).of_success rfl

end Quiet

/-- The flag for success goes by the headers that a reply passes on, and a reply
that completes the response does so by the flag it leaves. -/
structure Follows (s : Response) (r : Reply) : Prop where
  success : r.state.success = carried s.success r.events
  completed : ∀ {success}, r.disposition = .completed success → success = r.state.success

theorem Quiet.follows {s : Response} {r : Reply} (h : Quiet s r) : Follows s r :=
  ⟨h.success.trans (carried_quiet h.blocks _).symm,
    fun hd => (h.completed hd).trans h.success.symm⟩

theorem follows_onHeaders (s : Response) (block : Headers) (last : Bool) :
    Follows s (s.onHeaders block last) := by
  have h := s.onHeaders_spec block last
  generalize s.onHeaders block last = r at h ⊢
  cases h with
  | failing _ _ =>
    refine (Quiet.of_success (quiet_fail _) ?_).follows
    exact s.success_receiveEnd last
  | marked _ _ => exact Quiet.follows ⟨rfl, rfl, nofun⟩
  | completing _ _ => exact ⟨rfl, fun hd => (Disposition.completed.inj hd).symm⟩
  | passed _ _ => exact ⟨rfl, nofun⟩

theorem follows_act (s : Response) (a : Act) : Follows s (s.act a) := by
  match a with
  | .arrive (.headers block last) => exact s.follows_onHeaders block last
  | .arrive (.data bytes last) => exact (s.quiet_onData bytes last).follows
  | .arrive (.trailers block) => exact (s.quiet_onTrailers block).follows
  | .arrive (.reset _) => exact s.quiet_onReset.follows
  | .grant credit => exact (s.quiet_resume credit).follows

/-- Where the flag says what the log says, an act ends the log as its disposition
says. -/
theorem outcome_act {s : Response} {log : List Event} (hlog : ∀ e ∈ log, e.isOngoing)
    (hs : s.success = succeeded log) (a : Act) :
    outcome? (log ++ (s.act a).events) = (s.act a).disposition.outcome? := by
  have hfollows := s.follows_act a
  have htells := s.tells_act a
  have hflag : succeeded (log ++ (s.act a).events) = (s.act a).state.success := by
    rw [succeeded_append, hfollows.success, hs]
  generalize s.act a = r at hfollows htells hflag ⊢
  obtain ⟨state, events, disposition, raised⟩ := r
  dsimp only at htells hflag ⊢
  cases htells with
  | unfinished hongoing =>
    exact outcome_of_open fun e he => (List.mem_append.mp he).elim (hlog e) (hongoing e)
  | @completed l e success _ _ =>
    have hlast : (log ++ (l ++ [e, .complete])).getLast? = some .complete := by simp
    have hsuccess : success = state.success := hfollows.completed rfl
    unfold outcome?
    rw [hlast, hflag, ← hsuccess]
    rfl
  | @failed l e _ =>
    have hlast : (log ++ (l ++ [Event.error e])).getLast? = some (Event.error e) := by simp
    unfold outcome?
    rw [hlast]
    rfl

end Response

/-! ### Registered streams -/

/-- The stream that is started. -/
def Output.opened? : Output → Option StreamId
  | .opened id => some id
  | _ => none

namespace Client

open Registry (Bucket)

/-- The streams that are started among outputs, in order. -/
def opened (outs : List Output) : List StreamId := outs.filterMap Output.opened?

theorem mem_opened {outs : List Output} {id : StreamId} :
    id ∈ opened outs ↔ .opened id ∈ outs := by
  unfold opened
  rw [List.mem_filterMap]
  constructor
  · rintro ⟨o, ho, hid⟩
    cases o with
    | opened i => rwa [← Option.some.inj hid]
    | told _ _ | called _ _ | released _ => cases hid
  · exact fun ho => ⟨_, ho, rfl⟩

theorem opened_map_told (id : StreamId) (es : List Event) : opened (es.map (.told id)) = [] := by
  unfold opened
  rw [List.filterMap_map]
  exact List.filterMap_eq_nil_iff.mpr fun _ _ => rfl

theorem opened_map_called (id : StreamId) (calls : List RequestCall) :
    opened (calls.map (.called id)) = [] := by
  unfold opened
  rw [List.filterMap_map]
  exact List.filterMap_eq_nil_iff.mpr fun _ _ => rfl

theorem opened_append (xs ys : List Output) : opened (xs ++ ys) = opened xs ++ opened ys :=
  List.filterMap_append

theorem opened_answer (s : Stream) (a : Act) : opened (answer s a) = [] := by
  unfold answer
  dsimp only
  rw [opened_append, opened_append, opened_map_called, opened_map_told]
  split
  · rfl
  · rfl

section Registered

variable {c : Client} {id : StreamId} {s : Stream} {ms : List Move}

/-- Only ongoing events are told of a stream while it is registered. -/
theorem ongoing_of_find (hc : c.Sound) (hnone : c.find id = none)
    (hs : (c.after ms).find id = some s) : ∀ e ∈ (c.log id ms).flatten, e.isOngoing := by
  have hid := opened_of_find hc hnone (show (c.after ms).find id ≠ none by simp [hs])
  rcases log_of_started hc hnone hid with ⟨hopen, -⟩ | ⟨-, hgone⟩
  · exact hopen
  · rw [hs] at hgone
    cases hgone

/-- The flag of a registered stream says what the last headers in its log say. -/
theorem success_of_find (hc : c.Sound) (hnone : c.find id = none)
    (hs : (c.after ms).find id = some s) :
    s.response.success = succeeded (c.log id ms).flatten := by
  refine invariant_of_started (P := fun r _ es => r.success = succeeded es) hc
    (fun _ _ => rfl) ?_ hnone hs
  intro r ps es a _ hr _
  rw [(r.follows_act a).success, succeeded_append, hr]

end Registered

/-! ### What a move does to the accounts -/

/-- How many streams of a client stand so: with an outcome the streams that ended
in it, without one the registered streams. -/
def accounts (c : Client) : Option Outcome → Nat
  | none => c.streams.handles.length
  | some o => c.outcomes.of o

theorem accounts_none (c : Client) :
    c.accounts none = c.streams.openCount + c.streams.closedCount := by
  show (c.streams.opened.keys ++ c.streams.closed.keys).length = _
  rw [List.length_append]
  unfold Dict.keys
  rw [List.length_map, List.length_map]
  rfl

/-- What a move does to the accounts, and what it tells meanwhile. -/
inductive Books (c d : Client) (outs : List Output) : Prop
  /-- No stream begins or ends. -/
  | kept : opened outs = [] → (∀ x, d.accounts x = c.accounts x) →
      (∀ id, told id outs = [] ∨ ∃ s a, c.find id = some s ∧
        told id outs = (s.response.act a).events ∧
        (s.response.act a).disposition.outcome? = none) → Books c d outs
  | begun (h : Handle) : opened outs = [⟨h, c.nextSerial⟩] →
      (∀ x, d.accounts x = c.accounts x + [none].count x) → (∀ id, told id outs = []) →
      Books c d outs
  | ended {id : StreamId} {s : Stream} (o : Outcome) : opened outs = [] →
      (∀ x, d.accounts x + [none].count x = c.accounts x + [some o].count x) →
      c.find id = some s →
      (∀ log, (∀ e ∈ log, e.isOngoing) → s.response.success = succeeded log →
        outcome? (log ++ told id outs) = some o) →
      (∀ i, i ≠ id → told i outs = []) → Books c d outs

section Books

variable {c d : Client}

/-- The registered handles, where one entry is replaced. -/
theorem Puts.length_handles {c' : Client} {h : Handle} {e : Option (Bucket × Stream)}
    (hp : Puts c' h e d) (hs : c'.streams = c.streams) (hc : c.streams.Disjoint) :
    d.streams.handles.length + (if (c.entry h).isSome then 1 else 0) =
      c.streams.handles.length + if e.isSome then 1 else 0 := by
  have hperm : (d.streams.handles ++ if (c.entry h).isSome then [h] else []).Perm
      (c.streams.handles ++ if e.isSome then [h] else []) := by
    rw [List.perm_iff_count]
    intro k
    have hk : d.streams.lookup k = if k = h then e else c.streams.lookup k := by
      have hk := hp.entry k
      unfold Client.entry at hk
      rwa [hs] at hk
    rw [List.count_append, List.count_append, Registry.count_handles hc,
      Registry.count_handles hp.disjoint, hk]
    unfold Client.entry
    by_cases hkh : k = h
    · subst hkh
      rw [if_pos rfl]
      cases c.streams.lookup k <;> cases e <;> simp
    · rw [if_neg hkh]
      cases c.streams.lookup h <;> cases e <;> simp [Ne.symm hkh]
  have hlength := hperm.length_eq
  have hif (p : Bool) : (if p then [h] else []).length = if p then 1 else 0 := by cases p <;> rfl
  rwa [List.length_append, List.length_append, hif, hif] at hlength

theorem books_advance (hc : c.Sound) (m : Move) : Books c (c.advance m).1 (c.advance m).2 := by
  have hd := does_advance hc.disjoint m
  generalize c.advance m = r at hd ⊢
  obtain ⟨d, outs⟩ := r
  dsimp only at hd ⊢
  generalize m.op = op at hd
  cases hd with
  | absent _ _ _ | taken _ | unsent _ _ _ | ungranted _ | swept =>
    exact .kept rfl (fun x => by cases x <;> rfl) fun _ => .inl rfl
  | @started h _ he hp =>
    have hlength := hp.length_handles (c := c) rfl hc.disjoint
    rw [he] at hlength
    refine .begun h rfl (fun x => ?_) fun _ => rfl
    cases x with
    | none => exact hlength
    | some o => exact congrArg (fun p => p.of o) hp.outcomes
  | @sent _ h s _ _ last call _ _ he _ hp =>
    have hlength := hp.length_handles (c := c) rfl hc.disjoint
    rw [he] at hlength
    refine .kept rfl (fun x => ?_) fun _ => .inl rfl
    cases x with
    | none => exact Nat.add_right_cancel hlength
    | some o => exact congrArg (fun p => p.of o) hp.outcomes
  | @cancelled h b s _ he hp =>
    have hlength := hp.length_handles (c := c) rfl hc.disjoint
    have hfind : c.find s.id = some s := find_eq_some.mpr ⟨rfl, b, (hc.fits he).handle ▸ he⟩
    rw [he] at hlength
    refine .ended .cancel rfl (fun x => ?_) hfind (fun log _ _ => ?_) fun i hi => ?_
    · cases x with
      | none => exact hlength
      | some o =>
        show d.outcomes.of o + 0 = _
        rw [hp.outcomes]
        cases o <;> rfl
    · have htold : told s.id [.told s.id .cancel, .called s.id (.details cancelDetails),
          .called s.id (.reset .remoteReset), .released s.id.handle] = [.cancel] := by simp [told]
      rw [htold]
      unfold outcome?
      rw [List.getLast?_concat]
    · simp [told, Ne.symm hi]
  | @answered _ h b s a _ _ _ he hp =>
    have hlength := hp.length_handles (c := c) rfl hc.disjoint
    have hfind : c.find s.id = some s := find_eq_some.mpr ⟨rfl, b, (hc.fits he).handle ▸ he⟩
    have houtcomes : d.outcomes = c.outcomes.settle (s.response.act a).disposition := hp.outcomes
    have helse (i : StreamId) (hi : i ≠ s.id) : told i (answer s a) = [] :=
      told_answer_ne (Ne.symm hi) a
    rw [he] at hlength
    by_cases hfin : (s.response.act a).disposition.isFinal = true
    · obtain ⟨o, ho⟩ := Disposition.outcome_of_final hfin
      have hgone : entryAfter b s a = none := if_pos hfin
      rw [hgone] at hlength
      refine .ended o (opened_answer s a) (fun x => ?_) hfind (fun log hlog hs => ?_) helse
      · cases x with
        | none => exact hlength
        | some y =>
          show d.outcomes.of y + 0 = c.outcomes.of y + _
          rw [houtcomes, Outcomes.of_settle, ho]
          rfl
      · rw [told_answer, Response.outcome_act hlog hs, ho]
    · have hnone := Disposition.outcome_of_unfinished (Bool.eq_false_iff.mpr hfin)
      have hstays : (entryAfter b s a).isSome = true := by
        unfold entryAfter
        rw [if_neg hfin]
        rfl
      rw [hstays] at hlength
      refine .kept (opened_answer s a) (fun x => ?_) fun id => ?_
      · cases x with
        | none => exact Nat.add_right_cancel hlength
        | some y =>
          show d.outcomes.of y = c.outcomes.of y
          rw [houtcomes, Outcomes.of_settle, hnone]
          rfl
      · by_cases hid : id = s.id
        · subst hid
          exact .inr ⟨s, a, hfind, told_answer s a, hnone⟩
        · exact .inl (helse id hid)

end Books

/-! ### Runs -/

/-- How a stream stands after a run. -/
def status (c : Client) (ms : List Move) (id : StreamId) : Option Outcome :=
  outcome? (c.log id ms).flatten

/-- How the streams that were started in a run stand. -/
def statuses (c : Client) (ms : List Move) : List (Option Outcome) :=
  (opened (c.outputs ms).flatten).map (c.status ms)

/-- The move starts a stream. -/
def accepts (c : Client) (m : Move) : Bool :=
  match m.op with
  | .start _ => (c.step m.network m.op).isOk
  | _ => false

/-- The number of starts in a run that go through. -/
def starts (c : Client) : List Move → Nat
  | [] => 0
  | m :: ms => (if c.accepts m then 1 else 0) + (c.advance m).1.starts ms

section Run

variable {c : Client}

/-- A start that goes through takes the next serial. -/
theorem accepts_spec (hc : c.Sound) (m : Move) :
    (∃ h, c.accepts m = true ∧ opened (c.advance m).2 = [⟨h, c.nextSerial⟩] ∧
      (c.advance m).1.nextSerial = c.nextSerial + 1) ∨
    (c.accepts m = false ∧ opened (c.advance m).2 = [] ∧
      (c.advance m).1.nextSerial = c.nextSerial) := by
  have hd := does_advance hc.disjoint m
  obtain ⟨op, network⟩ := m
  have hrefused (hop : ∀ h, op ≠ .start h) : c.accepts ⟨op, network⟩ = false := by
    cases op with
    | start h => exact absurd rfl (hop h)
    | sendHeaders _ _ _ | sendData _ _ _ | sendTrailers _ _ | cancel _ | resume _ _
    | onHeaders _ _ _ | onData _ _ _ | onTrailers _ _ | onReset _ _ | sweep => rfl
  generalize c.advance ⟨op, network⟩ = r at hd ⊢
  obtain ⟨d, outs⟩ := r
  dsimp only at hd ⊢
  have not_start_of_sends (ha : op.sends = true) (h : Handle) : op ≠ .start h := by
    rintro rfl
    cases ha
  have not_start_of_act {a : Act} (ha : op.act? c.explicit = some a) (h : Handle) :
      op ≠ .start h := by
    rintro rfl
    cases ha
  cases hd with
  | @absent _ h hop hs _ =>
    refine .inr ⟨hrefused fun k hk => hs ?_, rfl, rfl⟩
    rw [hk] at hop ⊢
    exact congrArg Operation.start (Option.some.inj hop)
  | @taken h _ he =>
    refine .inr ⟨?_, rfl, rfl⟩
    unfold accepts
    dsimp only
    rw [show c.step network (.start h) = _ from start_registered he]
    rfl
  | unsent _ ha _ => exact .inr ⟨hrefused (not_start_of_sends ha), rfl, rfl⟩
  | ungranted _ | swept => exact .inr ⟨rfl, rfl, rfl⟩
  | @started h _ he hp =>
    obtain ⟨r, -, hs⟩ := start_unregistered he
    refine .inl ⟨h, ?_, rfl, hp.nextSerial⟩
    unfold accepts
    dsimp only
    rw [show c.step network (.start h) = _ from hs]
    rfl
  | sent _ _ _ ha _ _ hp => exact .inr ⟨hrefused (not_start_of_sends ha), rfl, hp.nextSerial⟩
  | cancelled _ hp => exact .inr ⟨rfl, rfl, hp.nextSerial⟩
  | @answered _ _ _ s a _ _ ha _ hp =>
    exact .inr ⟨hrefused (not_start_of_act ha), opened_answer s a, hp.nextSerial⟩

/-- The streams of a run have the serials from the next one on, one for each start
that goes through. -/
theorem serials_opened (hc : c.Sound) (ms : List Move) :
    (opened (c.outputs ms).flatten).map StreamId.serial =
        List.range' c.nextSerial (c.starts ms) ∧
      (c.after ms).nextSerial = c.nextSerial + c.starts ms := by
  induction ms generalizing c with
  | nil => exact ⟨rfl, rfl⟩
  | cons m ms ih =>
    obtain ⟨hserials, hnext⟩ := ih (sound_advance hc m)
    unfold outputs starts
    rw [List.flatten_cons, opened_append, List.map_append, hserials]
    rcases accepts_spec hc m with ⟨h, hacc, hopened, hone⟩ | ⟨hacc, hopened, hsame⟩
    · rw [hacc, hopened, hone, if_pos rfl]
      refine ⟨?_, ?_⟩
      · rw [Nat.add_comm 1, List.range'_succ]
        rfl
      · show ((c.advance m).1.after ms).nextSerial = _
        rw [hnext, hone]
        omega
    · rw [hacc, hopened, hsame, if_neg (by simp), Nat.zero_add]
      exact ⟨rfl, hnext.trans (by rw [hsame])⟩

theorem nodup_opened (hc : c.Sound) (ms : List Move) :
    (opened (c.outputs ms).flatten).Nodup := by
  have hserials := (serials_opened hc ms).1
  apply List.Nodup.of_map StreamId.serial
  rw [hserials]
  exact List.nodup_range'

theorem length_opened (hc : c.Sound) (ms : List Move) :
    (opened (c.outputs ms).flatten).length = c.starts ms := by
  have hserials := congrArg List.length (serials_opened hc ms).1
  rwa [List.length_map, List.length_range'] at hserials

theorem status_append (c : Client) (ms : List Move) (m : Move) (id : StreamId) :
    c.status (ms ++ [m]) id =
      outcome? ((c.log id ms).flatten ++ told id ((c.after ms).advance m).2) := by
  unfold status
  rw [flatten_log_concat]

theorem opened_snoc (c : Client) (ms : List Move) (m : Move) :
    opened (c.outputs (ms ++ [m])).flatten =
      opened (c.outputs ms).flatten ++ opened ((c.after ms).advance m).2 := by
  rw [outputs_append, List.flatten_append, opened_append]
  show _ ++ opened (((c.after ms).advance m).2 ++ []) = _
  rw [List.append_nil]

theorem status_of_find (hc : c.Sound) {id : StreamId} (hnone : c.find id = none) {ms : List Move}
    {s : Stream} (hs : (c.after ms).find id = some s) : c.status ms id = none :=
  outcome_of_open (ongoing_of_find hc hnone hs)

/-- A stream that a move tells nothing of stands as it did. -/
theorem status_of_silence {ms : List Move} {m : Move} {id : StreamId}
    (ht : told id ((c.after ms).advance m).2 = []) : c.status (ms ++ [m]) id = c.status ms id := by
  rw [status_append, ht, List.append_nil]
  rfl

/-- The streams that were started in a run stand as the accounts say. -/
theorem count_statuses (hc : c.Sound) (hnone : ∀ id, c.find id = none)
    (hempty : ∀ x, c.accounts x = 0) (ms : List Move) (x : Option Outcome) :
    (c.statuses ms).count x = (c.after ms).accounts x := by
  induction ms using List.reverseRecOn with
  | nil => exact (hempty x).symm
  | append_singleton ms m ih =>
    have hafter : c.after (ms ++ [m]) = ((c.after ms).advance m).1 := after_append c ms [m]
    unfold statuses at ih ⊢
    rw [hafter, opened_snoc]
    cases books_advance (sound_after hc ms) m with
    | kept hopened hacc ht =>
      have hstatus (id : StreamId) : c.status (ms ++ [m]) id = c.status ms id := by
        rcases ht id with hsilent | ⟨s, a, hs, hevents, hun⟩
        · exact status_of_silence hsilent
        · have hflag := success_of_find hc (hnone id) hs
          rw [status_of_find hc (hnone id) hs, status_append, hevents,
            Response.outcome_act (ongoing_of_find hc (hnone id) hs) hflag, hun]
      rw [hopened, List.append_nil, hacc, ← ih]
      exact congrArg _ (List.map_congr_left fun id _ => hstatus id)
    | begun h hopened hacc ht =>
      have hfresh : .opened ⟨h, (c.after ms).nextSerial⟩ ∉ (c.outputs ms).flatten := by
        obtain ⟨hserials, hnext⟩ := serials_opened hc ms
        intro hmem
        have hserial := List.mem_map_of_mem (f := StreamId.serial) (mem_opened.mpr hmem)
        rw [hserials] at hserial
        have hlt : (c.after ms).nextSerial < c.nextSerial + c.starts ms :=
          (List.mem_range'_1.mp hserial).2
        omega
      have hborn : c.status (ms ++ [m]) ⟨h, (c.after ms).nextSerial⟩ = none := by
        rw [status_of_silence (ht _)]
        unfold status
        rw [log_of_unopened hc (hnone _) hfresh]
        rfl
      have hstatus : (opened (c.outputs ms).flatten).map (c.status (ms ++ [m])) =
          (opened (c.outputs ms).flatten).map (c.status ms) :=
        List.map_congr_left fun id _ => status_of_silence (ht id)
      rw [hopened, List.map_append, List.count_append, hstatus, ih, hacc, List.map_singleton, hborn]
    | @ended id s o hopened hacc hs hend helse =>
      have hid : id ∈ opened (c.outputs ms).flatten :=
        mem_opened.mpr
          (opened_of_find hc (hnone id) (show (c.after ms).find id ≠ none by simp [hs]))
      have hbefore : c.status ms id = none := status_of_find hc (hnone id) hs
      have hnow : c.status (ms ++ [m]) id = some o := by
        rw [status_append]
        exact hend _ (ongoing_of_find hc (hnone id) hs) (success_of_find hc (hnone id) hs)
      have hothers : ∀ i, i ≠ id → c.status (ms ++ [m]) i = c.status ms i :=
        fun i hi => status_of_silence (helse i hi)
      have hcount : ((opened (c.outputs ms).flatten).map (c.status (ms ++ [m]))).count x +
          [c.status ms id].count x = ((opened (c.outputs ms).flatten).map (c.status ms)).count x +
          [c.status (ms ++ [m]) id].count x :=
        count_map_of_change (nodup_opened hc ms) hid hothers x
      rw [hbefore, hnow, ih, ← hacc x] at hcount
      rw [hopened, List.append_nil]
      exact Nat.add_right_cancel hcount

end Run

/-! ### Counters -/

/-- The counters show what there is to show. -/
structure Shows (c : Client) : Prop where
  enabled : c.counters.enabled = true
  started : c.counters.get .started = c.nextSerial
  ended : ∀ o, c.counters.get o.metric = c.outcomes.of o

section Counters

variable {c : Client}

/-- Counters that are switched off stay as they are. -/
theorem counters_off (hc : c.Sound) (hoff : c.counters.enabled = false) (m : Move) :
    (c.advance m).1.counters = c.counters := by
  have hrecord (n : Metric) : c.counters.record n = c.counters := if_neg (by simp [hoff])
  have hd := does_advance hc.disjoint m
  generalize c.advance m = r at hd ⊢
  obtain ⟨d, outs⟩ := r
  dsimp only at hd ⊢
  generalize m.op = op at hd
  cases hd with
  | absent _ _ _ | taken _ | unsent _ _ _ | ungranted _ | swept => rfl
  | started _ hp => exact hp.counters.trans (hrecord .started)
  | cancelled _ hp => exact hp.counters.trans (hrecord .cancel)
  | sent _ _ _ _ _ _ hp => exact hp.counters
  | @answered _ _ _ s a _ _ _ _ hp =>
    have hraised : (if (s.response.act a).raised then c.counters.record .highWatermark
        else c.counters) = c.counters := by
      split
      · exact hrecord _
      · rfl
    refine hp.counters.trans ?_
    show Counters.settle _ _ = _
    rw [hraised, Counters.settle_off hoff]

/-- Counters that are switched on follow the starts and the outcomes. -/
theorem shows_advance (hc : c.Sound) (hs : c.Shows) (m : Move) : (c.advance m).1.Shows := by
  have hrecord (k n : Metric) :
      (c.counters.record k).get n = c.counters.get n + [k].count n := by
    rw [Counters.get_record, hs.enabled]
    cases k <;> cases n <;> rfl
  have hd := does_advance hc.disjoint m
  generalize c.advance m = r at hd ⊢
  obtain ⟨d, outs⟩ := r
  dsimp only at hd ⊢
  generalize m.op = op at hd
  cases hd with
  | absent _ _ _ | taken _ | unsent _ _ _ | ungranted _ | swept =>
    exact ⟨hs.enabled, hs.started, hs.ended⟩
  | started _ hp =>
    refine ⟨?_, ?_, fun o => ?_⟩
    · rw [hp.counters, Counters.enabled_record, hs.enabled]
    · rw [hp.counters, hp.nextSerial, hrecord, hs.started]
      rfl
    · rw [hp.counters, hp.outcomes, hrecord, hs.ended]
      cases o <;> rfl
  | sent _ _ _ _ _ _ hp =>
    refine ⟨?_, ?_, fun o => ?_⟩
    · rw [hp.counters, hs.enabled]
    · rw [hp.counters, hp.nextSerial, hs.started]
    · rw [hp.counters, hp.outcomes, hs.ended]
  | cancelled _ hp =>
    refine ⟨?_, ?_, fun o => ?_⟩
    · rw [hp.counters, Counters.enabled_record, hs.enabled]
    · rw [hp.counters, hp.nextSerial, hrecord, hs.started]
      rfl
    · rw [hp.counters, hp.outcomes, hrecord, hs.ended]
      cases o <;> rfl
  | @answered _ _ _ s a _ _ _ _ hp =>
    -- A raised buffer is counted first, under a metric of its own.
    let k := if (s.response.act a).raised then c.counters.record .highWatermark else c.counters
    have hk : k.enabled = true := by
      show (ite _ _ _ : Counters).enabled = true
      split
      · rw [Counters.enabled_record, hs.enabled]
      · exact hs.enabled
    have hget {n : Metric} (hn : n ≠ .highWatermark) : k.get n = c.counters.get n := by
      show (ite _ _ _ : Counters).get n = _
      split
      · rw [hrecord, List.count_eq_zero_of_not_mem (by simpa using hn)]
        rfl
      · rfl
    have hcounters : d.counters = k.settle (s.response.act a).disposition := hp.counters
    have houtcomes : d.outcomes = c.outcomes.settle (s.response.act a).disposition := hp.outcomes
    have hserial : d.nextSerial = c.nextSerial := hp.nextSerial
    refine ⟨?_, ?_, fun o => ?_⟩
    · rw [hcounters, Counters.enabled_settle, hk]
    · rw [hcounters, hserial, Counters.get_settle hk, hget (by decide), hs.started]
      match (s.response.act a).disposition with
      | .unfinished | .completed true | .completed false | .failed => rfl
    · rw [hcounters, houtcomes, Counters.get_settle hk, hget (by cases o <;> decide), hs.ended,
        Outcomes.of_settle]
      match (s.response.act a).disposition with
      | .unfinished | .completed true | .completed false | .failed => cases o <;> rfl

theorem counters_after (hc : c.Sound) (ms : List Move) :
    (c.counters.enabled = false → (c.after ms).counters = c.counters) ∧
      (c.Shows → (c.after ms).Shows) := by
  induction ms generalizing c with
  | nil => exact ⟨fun _ => rfl, id⟩
  | cons m ms ih =>
    obtain ⟨hoff, hon⟩ := ih (sound_advance hc m)
    refine ⟨fun h => ?_, fun h => hon (shows_advance hc h m)⟩
    have hstep := counters_off hc h m
    exact (hoff (by rw [hstep, h])).trans hstep

end Counters

/-- Whatever is done to a client, its outcomes are the numbers of started streams
whose logs have ended so, each start that went through is among these or still
registered, and the counters show these numbers, or nothing at all where they are
switched off. -/
theorem accounts_balance (config : Config) (draws : Draws) (ms : List Move) :
    let start := ofConfig config draws
    let c := start.after ms
    let ids := opened (start.outputs ms).flatten
    let ended (o : Outcome) := ids.countP fun id => outcome? (start.log id ms).flatten = some o
    ids.Nodup ∧ ids.length = start.starts ms ∧
    c.outcomes = { success := ended .success, failure := ended .failure, cancel := ended .cancel } ∧
    start.starts ms = c.outcomes.success + c.outcomes.failure + c.outcomes.cancel +
      c.streams.openCount + c.streams.closedCount ∧
    c.counters =
      if config.observability.metricsEnabled then
        { enabled := true, started := start.starts ms, success := ended .success
          failure := ended .failure, cancel := ended .cancel
          highWatermark := c.counters.highWatermark }
      else { enabled := false } := by
  intro start c ids ended
  have hstart : start.Sound := sound_ofConfig config draws
  have hempty (x : Option Outcome) : start.accounts x = 0 := by
    match x with
    | none | some .success | some .failure | some .cancel => rfl
  have hcount (x : Option Outcome) : (start.statuses ms).count x = c.accounts x :=
    count_statuses hstart (fun _ => rfl) hempty ms x
  have hended (o : Outcome) : ended o = c.outcomes.of o := by
    rw [← show c.accounts (some o) = c.outcomes.of o from rfl, ← hcount, statuses, List.count,
      List.countP_map]
    refine List.countP_congr fun id _ => ?_
    simp [status]
  have hlength : ids.length = start.starts ms := length_opened hstart ms
  have hserial : c.nextSerial = start.starts ms :=
    (serials_opened hstart ms).2.trans (Nat.zero_add _)
  refine ⟨nodup_opened hstart ms, hlength, ?_, ?_, ?_⟩
  · rw [hended, hended, hended]
    rfl
  · have hsum := length_eq_counts (start.statuses ms)
    rw [hcount, hcount, hcount, hcount, accounts_none] at hsum
    have hstatuses : (start.statuses ms).length = ids.length := List.length_map ..
    rw [← hlength, ← hstatuses, hsum, ← Nat.add_assoc]
    rfl
  · obtain ⟨hoff, hon⟩ := counters_after hstart ms
    split
    · rename_i henabled
      have hshows : c.Shows := hon ⟨henabled, rfl, fun o => by cases o <;> rfl⟩
      rw [hended, hended, hended, ← hshows.ended, ← hshows.ended, ← hshows.ended, ← hserial,
        ← hshows.started, ← hshows.enabled]
      rfl
    · rename_i hdisabled
      have hfalse : config.observability.metricsEnabled = false := by simpa using hdisabled
      rw [hoff hfalse]
      show ({ enabled := config.observability.metricsEnabled } : Counters) = _
      rw [hfalse]

end Client
end HttpExchange
