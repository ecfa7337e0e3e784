/-
# What reaches the request object

The request object of a stream is called with exactly the parts of the request
that are sent on its handle while the stream is in the open bucket, up to the
first that ends the request (`Client.calls_are_sends`). The window closes with
the first event that ends the remote side and with a cancel; nothing else takes
a stream out of the open bucket. A reset given to the object is followed by no
part of a request.

Key definitions: `called`, `RequestCall.isPart`, `RequestCall.ends`,
`Operation.stops`, `PassedAs`, `sentTo`, `Client.Requests`.
Key theorems: `Client.requests_advance`, `Client.calls_of_open`,
`Client.calls_are_sends`.
-/
import HttpExchange.Proofs.Lifecycle
import HttpExchange.Proofs.Moves

namespace HttpExchange

/-- What the request object of a stream is called with. -/
def called (id : StreamId) (outs : List Output) : List RequestCall :=
  outs.filterMap fun o =>
    match o with
    | .called i c => if i = id then some c else none
    | _ => none

/-- The call hands over a part of a request. -/
def RequestCall.isPart : RequestCall → Bool
  | headers .. | data .. | trailers _ => true
  | details _ | reset _ => false

/-- The call gives the request up. -/
def RequestCall.isReset : RequestCall → Bool
  | reset _ => true
  | _ => false

/-- The call ends the request. -/
def RequestCall.ends : RequestCall → Bool
  | headers _ last | data _ last => last
  | trailers _ => true
  | details _ | reset _ => false

theorem RequestCall.not_isReset_of_ends {c : RequestCall} (h : c.ends = true) : c.isReset = false := by
  cases c with
  | headers _ _ | data _ _ | trailers _ => rfl
  | details _ | reset _ => cases h

/-- The operation ends the remote side of the stream under a handle, or cancels
the stream. -/
def Operation.stops (h : Handle) : Operation → Bool
  | cancel k | onTrailers k _ | onReset k _ => k == h
  | onHeaders k _ last | onData k _ last => k == h && last
  | _ => false

/-- The operation sends a part of a request under a handle. -/
def Operation.sendsOn (h : Handle) (op : Operation) : Bool := op.sends && op.handle? == some h

/-- The call that a send comes to. Headers are routed by the network preferred
at that moment; all else is passed on as it is. -/
inductive PassedAs : Move → RequestCall → Prop
  | headers (h : Handle) (block : Headers) (last : Bool) (network : Network) (alternate : Bool) :
      PassedAs ⟨.sendHeaders h block last, network⟩ (.headers (block.routed network alternate) last)
  | data (h : Handle) (bytes : Bytes) (last : Bool) (network : Network) :
      PassedAs ⟨.sendData h bytes last, network⟩ (.data bytes last)
  | trailers (h : Handle) (block : Headers) (network : Network) :
      PassedAs ⟨.sendTrailers h block, network⟩ (.trailers block)

theorem passedAs_of_call {m : Move} {alternate : Bool} {call : RequestCall}
    (hcall : m.op.call? m.network alternate = some call) : PassedAs m call := by
  obtain ⟨op, network⟩ := m
  cases op with
  | sendHeaders h block last =>
    cases hcall
    exact .headers h block last network alternate
  | sendData h bytes last =>
    cases hcall
    exact .data h bytes last network
  | sendTrailers h block =>
    cases hcall
    exact .trailers h block network
  | start _ | cancel _ | resume _ _ | onHeaders _ _ _ | onData _ _ _ | onTrailers _ _
  | onReset _ _ | sweep => cases hcall

/-- A list up to its first element with a property, and with it. -/
def upTo {α : Type} (p : α → Bool) : List α → List α
  | [] => []
  | a :: l => if p a then [a] else a :: upTo p l

/-- The sends of a run under a handle that count: those made before the stream
is stopped, up to the first that ends the request. -/
def sentTo (h : Handle) (ms : List Move) : List Move :=
  upTo (·.op.endsRequest)
    ((ms.takeWhile fun m => !m.op.stops h).filter fun m => m.op.sendsOn h)

section Lists

variable {h : Handle} {m : Move} {ms : List Move}

theorem sentTo_stopped (hm : m.op.stops h = true) : sentTo h (m :: ms) = [] := by
  unfold sentTo
  rw [List.takeWhile_cons, hm]
  rfl

theorem sentTo_sent (hm : m.op.stops h = false) (hs : m.op.sendsOn h = true) :
    sentTo h (m :: ms) = m :: if m.op.endsRequest then [] else sentTo h ms := by
  unfold sentTo
  rw [List.takeWhile_cons, hm]
  simp only [Bool.not_false, if_true, List.filter_cons, hs, upTo]
  split <;> rfl

theorem sentTo_other (hm : m.op.stops h = false) (hs : m.op.sendsOn h = false) :
    sentTo h (m :: ms) = sentTo h ms := by
  unfold sentTo
  rw [List.takeWhile_cons, hm]
  simp [hs]

theorem PassedAs.isPart {call : RequestCall} (hm : PassedAs m call) : call.isPart = true := by
  cases hm <;> rfl

theorem filter_parts {calls : List RequestCall} (hc : ∀ call ∈ calls, call.isPart = false) :
    calls.filter RequestCall.isPart = [] := by
  rw [List.filter_eq_nil_iff]
  intro call hcall
  rw [hc call hcall]
  exact Bool.false_ne_true

theorem called_append (id : StreamId) (xs ys : List Output) :
    called id (xs ++ ys) = called id xs ++ called id ys := List.filterMap_append ..

theorem called_map_called (id : StreamId) (calls : List RequestCall) :
    called id (calls.map (.called id)) = calls := by
  induction calls with
  | nil => rfl
  | cons c calls ih =>
    rw [List.map_cons]
    unfold called at ih ⊢
    rw [List.filterMap_cons, ih]
    simp

theorem called_map_called_ne {id i : StreamId} (hi : i ≠ id) (calls : List RequestCall) :
    called id (calls.map (.called i)) = [] := by
  induction calls with
  | nil => rfl
  | cons c calls ih =>
    rw [List.map_cons]
    unfold called at ih ⊢
    rw [List.filterMap_cons, ih]
    simp [hi]

theorem called_map_told (id i : StreamId) (es : List Event) :
    called id (es.map (.told i)) = [] := by
  induction es with
  | nil => rfl
  | cons _ _ ih => exact ih

end Lists

namespace Client

open Registry (Bucket)

/-! ### One operation -/

section Step

variable {c : Client} {id : StreamId} {m : Move}

theorem called_answer (s : Stream) (a : Act) : called s.id (answer s a) = a.calls := by
  unfold answer
  simp only [called_append, called_map_called, called_map_told]
  split <;> simp [called]

theorem called_answer_ne {s : Stream} (hs : s.id ≠ id) (a : Act) : called id (answer s a) = [] := by
  unfold answer
  simp only [called_append, called_map_called_ne hs, called_map_told]
  split <;> simp [called]

/-- A send on an open stream whose request goes on is passed on. -/
theorem advance_send (hc : c.Sound) {h : Handle} {s : Stream} (hs : m.op.sendsOn h = true)
    (he : c.entry h = some (.opened, s)) (hl : s.localClosed = false) :
    ∃ call g, PassedAs m call ∧ (c.advance m).2 = [.called s.id call] ∧
      Puts { c with draws := g } h
        (some (.opened, { s with localClosed := m.op.endsRequest })) (c.advance m).1 := by
  obtain ⟨ha, hop⟩ : m.op.sends = true ∧ m.op.handle? = some h := by
    simpa [Operation.sendsOn] using hs
  obtain ⟨call, hcall⟩ := Operation.call?_of_sends ha m.network c.draw
  obtain ⟨hout, g, hp⟩ := advance_passed hc hop hcall he hl
  exact ⟨call, g, passedAs_of_call hcall, hout, hp⟩

theorem stops_handle {h : Handle} {op : Operation} (hs : op.stops h = true) :
    op.handle? = some h := by
  cases op <;> simp_all [Operation.stops, Operation.handle?]

theorem sendsOn_handle {h : Handle} {op : Operation} (hs : op.sendsOn h = true) :
    op.sends = true ∧ op.handle? = some h := by
  simpa [Operation.sendsOn] using hs

theorem stops_of_sends {op : Operation} (hs : op.sends = true) (h : Handle) :
    op.stops h = false := by
  cases op <;> first | rfl | cases hs

/-- What a move can do to the request side of a stream. -/
inductive Requests (c : Client) (id : StreamId) (m : Move) (d : Client) (outs : List Output) : Prop
  /-- A part of the request is passed on. -/
  | passed {s : Stream} {call : RequestCall} : c.entry id.handle = some (.opened, s) → s.id = id →
      s.localClosed = false → m.op.sendsOn id.handle = true → PassedAs m call →
      outs = [.called id call] →
      d.entry id.handle = some (.opened, { s with localClosed := m.op.endsRequest }) →
      Requests c id m d outs
  /-- Nothing is called, and a stream in the open bucket stays there as it is. -/
  | quiet : called id outs = [] →
      (∀ s, c.entry id.handle = some (.opened, s) → s.id = id →
        m.op.stops id.handle = false ∧ (m.op.sendsOn id.handle = true → s.localClosed = true) ∧
          ∃ t, d.entry id.handle = some (.opened, t) ∧ t.id = id ∧
            t.localClosed = s.localClosed) → Requests c id m d outs
  /-- The remote side ends, or the stream is cancelled. -/
  | stopped : (c.find id).isSome → m.op.stops id.handle = true →
      (∀ call ∈ called id outs, call.isPart = false) →
      (∀ t, d.entry id.handle ≠ some (.opened, t)) → Requests c id m d outs

section Requests

variable {d : Client} {outs : List Output}

/-- A move that leaves the entry of the stream alone. -/
theorem Requests.elsewhere (ho : called id outs = []) (he : d.entry id.handle = c.entry id.handle)
    (hm : ∀ s, c.entry id.handle = some (.opened, s) → s.id = id →
      m.op.stops id.handle = false ∧ (m.op.sendsOn id.handle = true → s.localClosed = true)) :
    Requests c id m d outs := by
  refine .quiet ho fun s hs hid => ?_
  obtain ⟨hstop, hsend⟩ := hm s hs hid
  exact ⟨hstop, hsend, s, he.trans hs, hid, rfl⟩

/-- A move that has nothing to do with requests. -/
theorem Requests.idle (he : d.entry id.handle = c.entry id.handle)
    (hstop : m.op.stops id.handle = false) (hsend : m.op.sends = false) :
    Requests c id m d [] := by
  refine .elsewhere rfl he fun s _ _ => ⟨hstop, fun hs => ?_⟩
  rw [(sendsOn_handle hs).1] at hsend
  cases hsend

/-- A move under another handle. -/
theorem Requests.apart (hd : Does c m.op d outs) (ho : called id outs = [])
    (hop : m.op.handle? ≠ some id.handle) : Requests c id m d outs := by
  refine .elsewhere ho (hd.frame hop) fun s _ _ => ⟨?_, fun hs => ?_⟩
  · exact Bool.eq_false_iff.mpr (mt stops_handle hop)
  · exact absurd (sendsOn_handle hs).2 hop

/-- A move on another stream, which may be under the same handle. -/
theorem Requests.other (hd : Does c m.op d outs) {h : Handle} {b : Bucket} {s : Stream}
    (hop : m.op.handle? = some h) (he : c.entry h = some (b, s)) (hs : s.id ≠ id)
    (ho : called id outs = []) : Requests c id m d outs := by
  by_cases hh : h = id.handle
  · subst hh
    refine .quiet ho fun t ht hid => ?_
    rw [he, Option.some.injEq, Prod.mk.injEq] at ht
    exact absurd (ht.2 ▸ hid) hs
  · refine .apart hd ho fun hk => hh ?_
    rw [hop, Option.some.injEq] at hk
    exact hk

/-- An act closes the remote side exactly if its operation stops the stream. -/
theorem stops_of_act? {h : Handle} {op : Operation} {a : Act} {explicit : Bool}
    (hop : op.handle? = some h) (ha : op.act? explicit = some a) : op.stops h = a.closes := by
  cases op with
  | start _ | sendHeaders _ _ _ | sendData _ _ _ | sendTrailers _ _ | cancel _ | sweep => cases ha
  | onHeaders _ _ _ | onData _ _ _ | onTrailers _ _ | onReset _ _ =>
    cases hop
    cases ha
    simp [Operation.stops, Act.closes]
  | resume _ _ =>
    unfold Operation.act? at ha
    dsimp only at ha
    split at ha <;> cases ha
    rfl

theorem calls_of_open_act {a : Act} (ha : a.closes = false) : a.calls = [] := by
  match a with
  | .arrive (.headers _ _) | .arrive (.data _ _) | .grant _ => rfl
  | .arrive (.trailers _) | .arrive (.reset _) => cases ha

theorem calls_no_part {a : Act} {call : RequestCall} (hm : call ∈ a.calls) :
    call.isPart = false := by
  match a with
  | .arrive (.headers _ _) | .arrive (.data _ _) | .grant _ | .arrive (.trailers _) => cases hm
  | .arrive (.reset reason) =>
    obtain rfl : call = .reset reason := List.mem_singleton.mp hm
    rfl

/-- An act on this stream or another. -/
theorem requests_answered (hc : c.Sound) (hf : c.Filed) {h : Handle} {b : Bucket} {s : Stream}
    {a : Act} (hop : m.op.handle? = some h) (ha : m.op.act? c.explicit = some a)
    (he : c.entry h = some (b, s)) (hp : Puts (c.settled s a) h (entryAfter b s a) d)
    (id : StreamId) : Requests c id m d (answer s a) := by
  by_cases hs : s.id = id
  · obtain rfl : h = id.handle := by rw [← (hc.fits he).handle, hs]
    have hent := (hp.entry id.handle).trans (if_pos rfl)
    have hcalls : called id (answer s a) = a.calls := hs ▸ called_answer s a
    have hstop := stops_of_act? hop ha
    unfold entryAfter at hent
    cases hcl : a.closes with
    | true =>
      have hfind : c.find id = some s := find_eq_some.mpr ⟨hs, b, he⟩
      refine .stopped (by simp [hfind]) (hstop.trans hcl) (fun call hm => ?_) fun t ht => ?_
      · rw [hcalls] at hm
        exact calls_no_part hm
      · rw [hent, hcl] at ht
        split at ht <;> cases ht
    | false =>
      refine .quiet (hcalls.trans (calls_of_open_act hcl)) fun t ht _ => ?_
      cases he.symm.trans ht
      have howing : ¬ s.response.Owing := fun ho => by cases (hf _ _ _ he).2.mp ho
      obtain ⟨hfin, -⟩ := Response.not_owing_act (hc.fits he).balanced howing hcl
      rw [hfin, hcl] at hent
      refine ⟨hstop.trans hcl, fun hsend => ?_, _, hent, hs, rfl⟩
      rw [act?_of_sends (sendsOn_handle hsend).1] at ha
      cases ha
  · exact .other (.answered hop ha he hp) hop he hs (called_answer_ne hs a)

/-- A cancel, of this stream or another. -/
theorem requests_cancelled (hc : c.Sound) {h : Handle} {b : Bucket} {s : Stream}
    (hd : Does c m.op d [.told s.id .cancel, .called s.id (.details cancelDetails),
      .called s.id (.reset .remoteReset), .released s.id.handle])
    (hm : m.op = .cancel h) (he : c.entry h = some (b, s)) (hnone : d.entry h = none)
    (id : StreamId) : Requests c id m d [.told s.id .cancel, .called s.id (.details cancelDetails),
      .called s.id (.reset .remoteReset), .released s.id.handle] := by
  by_cases hs : s.id = id
  · obtain rfl : h = id.handle := by rw [← (hc.fits he).handle, hs]
    have hfind : c.find id = some s := find_eq_some.mpr ⟨hs, b, he⟩
    refine .stopped (by simp [hfind]) ?_ (fun call hcall => ?_) fun t ht => ?_
    · rw [hm]
      exact beq_self_eq_true _
    · have hcases : call = .details cancelDetails ∨ call = .reset .remoteReset := by
        simpa [called, hs] using hcall
      rcases hcases with rfl | rfl <;> rfl
    · rw [hnone] at ht
      cases ht
  · refine .other hd ?_ he hs ?_
    · rw [hm]
      rfl
    · simp [called, hs]

/-- A send, on this stream or another. -/
theorem requests_sent (hc : c.Sound) {h : Handle} {s : Stream} {call : RequestCall}
    (hadv : c.advance m = (d, [.called s.id call])) (hop : m.op.handle? = some h)
    (ha : m.op.sends = true) (he : c.entry h = some (.opened, s)) (hl : s.localClosed = false)
    (id : StreamId) : Requests c id m d [.called s.id call] := by
  by_cases hs : s.id = id
  · obtain rfl : h = id.handle := by rw [← (hc.fits he).handle, hs]
    have hsend : m.op.sendsOn id.handle = true := by simp [Operation.sendsOn, ha, hop]
    obtain ⟨call', g, hpassed, hout, hp⟩ := advance_send hc hsend he hl
    rw [hadv] at hout hp
    obtain rfl : call = call' := by simpa using hout
    have hent := (hp.entry id.handle).trans (if_pos rfl)
    exact .passed he hs hl hsend hpassed (by rw [hs]) hent
  · have hd := does_advance hc.disjoint m
    rw [hadv] at hd
    exact .other hd hop he hs (by simp [called, hs])

theorem requests_advance (hc : c.Sound) (hf : c.Filed) (id : StreamId) (m : Move) :
    Requests c id m (c.advance m).1 (c.advance m).2 := by
  have hd := does_advance hc.disjoint m
  generalize hadv : c.advance m = r at hd ⊢
  obtain ⟨d, outs⟩ := r
  dsimp only at hd ⊢
  have hd' := hd
  generalize hm : m.op = op at hd
  cases hd with
  | @absent _ h hop _ he =>
    by_cases hh : h = id.handle
    · subst hh
      refine .quiet rfl fun s hs _ => ?_
      rw [he] at hs
      cases hs
    · refine .apart hd' rfl fun hk => hh ?_
      rw [hm, hop, Option.some.injEq] at hk
      exact hk
  | taken _ | ungranted _ | swept => exact .idle rfl (by rw [hm]; rfl) (by rw [hm]; rfl)
  | @unsent _ h hop ha hl =>
    refine .elsewhere rfl rfl fun s hs _ => ⟨hm ▸ stops_of_sends ha _, fun hsend => ?_⟩
    have hk := (sendsOn_handle hsend).2
    rw [hm, hop, Option.some.injEq] at hk
    exact hl s (hk ▸ hs)
  | @started h _ he hp =>
    by_cases hh : h = id.handle
    · subst hh
      refine .quiet rfl fun s hs _ => ?_
      rw [he] at hs
      cases hs
    · refine .apart hd' rfl fun hk => hh ?_
      rw [hm] at hk
      exact Option.some.inj hk
  | sent _ _ hop ha he hl _ => exact requests_sent hc hadv (hm ▸ hop) (hm ▸ ha) he hl id
  | cancelled he hp =>
    exact requests_cancelled hc hd' hm he ((hp.entry _).trans (if_pos rfl)) id
  | answered hop ha he hp => exact requests_answered hc hf (hm ▸ hop) (hm ▸ ha) he hp id

end Requests

end Step

/-! ### Runs -/

section Run

variable {c : Client} {id : StreamId}

/-- A stream that was started and takes no more parts of a request: it is not in
the open bucket, or its request has ended. -/
structure Shut (c : Client) (id : StreamId) : Prop where
  started : id.serial < c.nextSerial
  ended : ∀ s, c.entry id.handle = some (.opened, s) → s.id = id → s.localClosed = true

theorem shut_advance (hc : c.Sound) (hf : c.Filed) (hs : c.Shut id) (m : Move) :
    (c.advance m).1.Shut id := by
  have hle := (does_advance hc.disjoint m).nextSerial
  have hn := hs.started
  refine ⟨by omega, fun t ht hid => ?_⟩
  -- the stream was in the open bucket before, as it never comes back there
  have hstage := (goes_advance hc hn m).stage_le
  rw [place_of_entry ht hid] at hstage
  obtain ⟨s, he, hsid⟩ := entry_of_place (Nat.le_zero.mp hstage)
  have hl := hs.ended s he hsid
  cases requests_advance hc hf id m with
  | passed he' hid' hl' _ _ _ _ =>
    rw [hs.ended _ he' hid'] at hl'
    cases hl'
  | quiet _ hkeep =>
    obtain ⟨-, -, u, hu, -, hul⟩ := hkeep s he hsid
    cases ht.symm.trans hu
    exact hul.trans hl
  | stopped _ _ _ hno => exact absurd ht (hno t)

theorem calls_of_shut (hc : c.Sound) (hf : c.Filed) (hs : c.Shut id) (ms : List Move) :
    ∀ call ∈ called id (c.outputs ms).flatten, call.isPart = false := by
  induction ms generalizing c with
  | nil => exact fun _ h => by cases h
  | cons m ms ih =>
    intro call hcall
    unfold outputs at hcall
    rw [List.flatten_cons, called_append, List.mem_append] at hcall
    rcases hcall with hcall | hcall
    · cases requests_advance hc hf id m with
      | passed he hid hl _ _ _ _ =>
        rw [hs.ended _ he hid] at hl
        cases hl
      | quiet ho _ =>
        rw [ho] at hcall
        cases hcall
      | stopped _ _ hno _ => exact hno call hcall
    · exact ih (sound_advance hc m) (filed_advance hc hf m) (shut_advance hc hf hs m) call hcall

theorem Shut.parts (hs : c.Shut id) (hc : c.Sound) (hf : c.Filed) (ms : List Move) :
    (called id (c.outputs ms).flatten).filter RequestCall.isPart = [] :=
  filter_parts (calls_of_shut hc hf hs ms)

/-- The parts that reach the request object of an open stream are the sends that
count. -/
theorem calls_of_open (hc : c.Sound) (hf : c.Filed) {s : Stream}
    (he : c.entry id.handle = some (.opened, s)) (hid : s.id = id) (hl : s.localClosed = false)
    (ms : List Move) :
    List.Forall₂ PassedAs (sentTo id.handle ms)
      ((called id (c.outputs ms).flatten).filter RequestCall.isPart) := by
  induction ms generalizing c s with
  | nil => exact .nil
  | cons m ms ih =>
    have hd := sound_advance hc m
    have hf' := filed_advance hc hf m
    have hn := (does_advance hc.disjoint m).nextSerial
    have hlt := hid ▸ (hc.fits he).started
    have hlt' : id.serial < (c.advance m).1.nextSerial := by omega
    unfold outputs
    rw [List.flatten_cons, called_append, List.filter_append]
    cases requests_advance hc hf id m with
    | @passed s' call he' hid' _ hsend hpass ho hent =>
      have hstop := stops_of_sends (sendsOn_handle hsend).1 id.handle
      have hcall : (called id (c.advance m).2).filter RequestCall.isPart = [call] := by
        rw [ho]
        simp [called, hpass.isPart]
      rw [sentTo_sent hstop hsend, hcall]
      refine .cons hpass ?_
      cases hend : m.op.endsRequest with
      | true =>
        have hshut : (c.advance m).1.Shut id := by
          refine ⟨hlt', fun t ht _ => ?_⟩
          cases hent.symm.trans ht
          exact hend
        rw [if_pos rfl, hshut.parts hd hf' ms]
        exact .nil
      | false =>
        rw [hend] at hent
        exact ih hd hf' hent hid' rfl
    | quiet ho hkeep =>
      obtain ⟨hstop, hsend, t, ht, htid, htl⟩ := hkeep s he hid
      have hno : m.op.sendsOn id.handle = false := by
        rw [Bool.eq_false_iff]
        intro hs
        rw [hsend hs] at hl
        cases hl
      rw [sentTo_other hstop hno, ho]
      exact ih hd hf' ht htid (htl.trans hl)
    | stopped _ hstop hparts hno =>
      have hshut : (c.advance m).1.Shut id := ⟨hlt', fun t ht _ => absurd ht (hno t)⟩
      rw [sentTo_stopped hstop, filter_parts hparts, hshut.parts hd hf' ms]
      exact .nil

/-- A stream stays in the open bucket until it is stopped. -/
theorem open_of_unstopped (hc : c.Sound) (hf : c.Filed) {s : Stream}
    (he : c.entry id.handle = some (.opened, s)) (hid : s.id = id) {ms : List Move}
    (hms : ∀ m ∈ ms, m.op.stops id.handle = false) :
    ∃ t, (c.after ms).entry id.handle = some (.opened, t) ∧ t.id = id := by
  induction ms generalizing c s with
  | nil => exact ⟨s, he, hid⟩
  | cons m ms ih =>
    have hd := sound_advance hc m
    have hf' := filed_advance hc hf m
    have hms' : ∀ n ∈ ms, n.op.stops id.handle = false := fun n hn => hms n (by simp [hn])
    cases requests_advance hc hf id m with
    | passed _ hid' _ _ _ _ hent => exact ih hd hf' hent hid' hms'
    | quiet _ hkeep =>
      obtain ⟨-, -, t, ht, htid, -⟩ := hkeep s he hid
      exact ih hd hf' ht htid hms'
    | stopped _ hstop _ _ =>
      rw [hms m (by simp)] at hstop
      cases hstop

/-- Once a request was given up, no part of it follows. -/
theorem no_part_after_reset (hc : c.Sound) (hf : c.Filed) (hn : id.serial < c.nextSerial)
    (ms : List Move) : (called id (c.outputs ms).flatten).Pairwise
      fun a b => a.isReset = true → b.isPart = false := by
  induction ms generalizing c with
  | nil => exact .nil
  | cons m ms ih =>
    have hd := sound_advance hc m
    have hf' := filed_advance hc hf m
    have hle := (does_advance hc.disjoint m).nextSerial
    have hrest := ih hd hf' (by omega)
    unfold outputs
    rw [List.flatten_cons, called_append]
    cases requests_advance hc hf id m with
    | @passed _ call _ _ _ _ hpass ho _ =>
      rw [ho, show called id [.called id call] = [call] by simp [called]]
      refine .cons (fun b _ hreset => ?_) hrest
      cases hpass <;> cases hreset
    | quiet ho _ =>
      rw [ho]
      exact hrest
    | stopped _ _ hparts hno =>
      have hshut := calls_of_shut hd hf' ⟨by omega, fun t ht _ => absurd ht (hno t)⟩ ms
      refine List.pairwise_append.mpr ⟨?_, hrest, fun _ _ b hb _ => hshut b hb⟩
      exact List.pairwise_of_forall_mem_list fun _ _ b hb _ => hparts b hb

/-! ### From the start of a stream on -/

/-- Nothing is called for a stream that is not there. -/
theorem called_of_find_none (hc : c.Sound) (hf : c.Filed) (hnone : c.find id = none) (m : Move) :
    called id (c.advance m).2 = [] := by
  cases requests_advance hc hf id m with
  | passed he hid _ _ _ _ _ =>
    rw [find_eq_some.mpr ⟨hid, _, he⟩] at hnone
    cases hnone
  | quiet ho _ => exact ho
  | stopped hsome _ _ _ =>
    rw [hnone] at hsome
    cases hsome

/-- The move that starts a stream; nothing is called for it before that. -/
theorem exists_start (hc : c.Sound) (hf : c.Filed) (hnone : c.find id = none) {ms : List Move}
    (ho : .opened id ∈ (c.outputs ms).flatten) :
    ∃ before m later, ms = before ++ m :: later ∧ m.op = .start id.handle ∧
      .opened id ∈ ((c.after before).advance m).2 ∧
      (∃ s, (c.after (before ++ [m])).entry id.handle = some (.opened, s) ∧ s.id = id ∧
        s.localClosed = false) ∧ called id (c.outputs (before ++ [m])).flatten = [] := by
  induction ms generalizing c with
  | nil => cases ho
  | cons m ms ih =>
    have hcalled := called_of_find_none hc hf hnone m
    cases sees_advance hc id m with
    | absent _ hd _ hn =>
      have ho' : .opened id ∈ ((c.advance m).1.outputs ms).flatten :=
        (List.mem_append.mp (List.flatten_cons ▸ ho)).resolve_left hn
      obtain ⟨before, n, later, rfl, hop, hopened, hs, hsilent⟩ :=
        ih (sound_advance hc m) (filed_advance hc hf m) hd ho'
      refine ⟨m :: before, n, later, rfl, hop, hopened, hs, ?_⟩
      rw [List.cons_append]
      unfold outputs
      rw [List.flatten_cons, called_append, hcalled, hsilent]
      rfl
    | born hop _ _ hd ht =>
      have hplace : (c.advance m).1.place id = .opened :=
        place_of_opened hc (by rw [ht]; exact List.mem_singleton_self _)
      obtain ⟨s, he, hid⟩ := entry_of_place (by rw [hplace]; rfl)
      have hs := find_eq_some.mpr ⟨hid, _, he⟩
      obtain rfl : c.fresh id.handle = s := Option.some.inj (hd.symm.trans hs)
      refine ⟨[], m, ms, rfl, hop, by rw [after, ht]; simp, ⟨_, he, hid, rfl⟩, ?_⟩
      rw [List.nil_append]
      unfold outputs
      rw [List.flatten_cons, called_append, hcalled]
      rfl
    | idle h _ _ _ _ | cancelled _ h _ _ _ | answered _ _ h _ _ _ _ =>
      rw [hnone] at h
      cases h

theorem cancel_outputs (hc : c.Sound) {m : Move} (hm : m.op = .cancel id.handle)
    (hl : c.Live id) : (c.advance m).2 = [.told id .cancel, .called id (.details cancelDetails),
      .called id (.reset .remoteReset), .released id.handle] := by
  obtain ⟨s, hs⟩ := Option.isSome_iff_exists.mp ((live_iff hc id).mp hl)
  obtain ⟨hid, b, he⟩ := find_eq_some.mp hs
  have hd := does_advance hc.disjoint m
  generalize c.advance m = r at hd ⊢
  obtain ⟨d, outs⟩ := r
  dsimp only at hd ⊢
  rw [hm] at hd
  cases hd with
  | absent hop _ hnone =>
    cases hop
    rw [he] at hnone
    cases hnone
  | unsent _ ha _ => cases ha
  | sent _ _ _ ha _ _ _ => cases ha
  | answered _ ha _ _ => cases ha
  | cancelled he' _ =>
    cases he.symm.trans he'
    rw [hid]

end Run

/-- From the start of a stream on, the parts of a request that reach its request
object are, one for one and in order, the sends on its handle up to the first
operation that ends the remote side or cancels the stream, and up to the first
that ends the request. Until that operation the stream is registered. No part
follows once the request was given up, and a cancel that finds the stream calls
for its reason and its reset. -/
theorem calls_are_sends (config : Config) (draws : Draws) (ms : List Move) (id : StreamId)
    (hid : .opened id ∈ ((ofConfig config draws).outputs ms).flatten) :
    let start := ofConfig config draws
    let calls := called id (start.outputs ms).flatten
    (∃ before m later, ms = before ++ m :: later ∧ m.op = .start id.handle ∧
      .opened id ∈ ((start.after before).advance m).2 ∧
      List.Forall₂ PassedAs (sentTo id.handle later) (calls.filter RequestCall.isPart) ∧
      ∀ xs ys, later = xs ++ ys → (∀ n ∈ xs, n.op.stops id.handle = false) →
        (start.after (before ++ m :: xs)).Live id) ∧
    calls.Pairwise (fun a b => a.isReset = true → b.isPart = false) ∧
    ∀ xs n ys, ms = xs ++ n :: ys → n.op = .cancel id.handle → (start.after xs).Live id →
      ((start.after xs).advance n).2 = [.told id .cancel,
        .called id (.details "client cancelled stream"), .called id (.reset .remoteReset),
        .released id.handle] := by
  intro start calls
  have hstart : start.Sound := sound_ofConfig config draws
  have hreach (xs : List Move) : (start.after xs).Reachable := ⟨config, draws, xs, rfl⟩
  have hfiled (xs : List Move) : (start.after xs).Filed := (hreach xs).filed.1
  obtain ⟨before, m, later, rfl, hop, hopened, ⟨s, he, hsid, hl⟩, hsilent⟩ :=
    exists_start hstart (hfiled []) rfl hid
  have hb := (hreach (before ++ [m])).sound
  have hcalls : calls = called id ((start.after (before ++ [m])).outputs later).flatten := by
    change called id (start.outputs (before ++ m :: later)).flatten = _
    rw [List.append_cons, outputs_append, List.flatten_append, called_append, hsilent]
    rfl
  refine ⟨⟨before, m, later, rfl, hop, hopened, ?_, fun xs _ _ hxs => ?_⟩, ?_,
    fun xs n _ _ hn hlive => ?_⟩
  · rw [hcalls]
    exact calls_of_open hb (hfiled _) he hsid hl later
  · obtain ⟨t, ht, htid⟩ := open_of_unstopped hb (hfiled _) he hsid hxs
    rw [List.append_cons, after_append]
    exact ⟨id.handle, _, t, ht, htid⟩
  · rw [hcalls]
    exact no_part_after_reset hb (hfiled _) (hsid ▸ (hb.fits he).started) later
  · exact cancel_outputs (hreach xs).sound hn hlive

/-- A request of two parts, the second of them its end, another send that is
dropped, and a reset that waits for credit; the cancel finds the stream still
registered. -/
theorem calls_are_sends_reset :
    let start := ofConfig { flowControl := { explicit := true } } {}
    let ms := [Operation.start ⟨1⟩, .onHeaders ⟨1⟩ {} false, .sendData ⟨1⟩ [1] false,
      .sendData ⟨1⟩ [2] true, .sendData ⟨1⟩ [3] false, .onReset ⟨1⟩ .overflow,
      .sendTrailers ⟨1⟩ {}, .cancel ⟨1⟩].map (Move.mk · .generic)
    Output.opened ⟨⟨1⟩, 0⟩ ∈ (start.outputs ms).flatten ∧
      called ⟨⟨1⟩, 0⟩ (start.outputs ms).flatten = [.data [1] false, .data [2] true,
        .reset .overflow, .details "client cancelled stream", .reset .remoteReset] ∧
      (called ⟨⟨1⟩, 0⟩ (start.outputs ms).flatten).Pairwise
        (fun a b => a.isReset = true → b.isPart = false) ∧
      ∃ before m later, ms = before ++ m :: later ∧ m.op = .start ⟨1⟩ ∧
        List.Forall₂ PassedAs (sentTo ⟨1⟩ later)
          ((called ⟨⟨1⟩, 0⟩ (start.outputs ms).flatten).filter RequestCall.isPart) := by
  intro start ms
  have hid : Output.opened ⟨⟨1⟩, 0⟩ ∈ (start.outputs ms).flatten := by decide
  obtain ⟨⟨before, m, later, hms, hop, -, hparts, -⟩, hpairs, -⟩ :=
    calls_are_sends { flowControl := { explicit := true } } {} ms ⟨⟨1⟩, 0⟩ hid
  exact ⟨hid, by decide, hpairs, before, m, later, hms, hop, hparts⟩

end Client
end HttpExchange
