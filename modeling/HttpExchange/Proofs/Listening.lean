/-
# Applications that only listen

Where no application answers an event with calls of its own, what an operation
does to a host can be said outright: the client moves, a request object may be
made or called, the parts it sends go behind the queue, and what is told is noted
down. One relation, `Host.Plays`, lists what can become of a host so, and the
handles that an operation does not name see nothing of it (`Host.Plays.frame`).

Key definitions: `Host.Listens`, `Host.does`, `Host.push`, `Host.Plays`,
`Host.queued`, `heard`.
Key theorems: `Host.plays_does`, `Host.Plays.listens`, `Host.Plays.frame`.
-/
import HttpExchange.Proofs.Moves
import HttpExchange.Proofs.LiveHandles

namespace HttpExchange

open Registry (Bucket)

/-- The task that brings a part of a response. -/
def ResponsePart.task (h : Handle) (p : ResponsePart) : Task := .operate (p.operation h)

/-- The part of a response that a task brings under a handle. -/
def Task.part? (h : Handle) : Task → Option ResponsePart
  | .operate op => if op.handle? = some h then op.part? else none
  | _ => none

/-- What the application of a handle was told, in order. -/
def heard (h : Handle) (notes : List Note) : List Event :=
  notes.filterMap fun n =>
    match n with
    | .told k e => if k = h then some e else none
    | .answered _ _ _ => none

theorem heard_append (h : Handle) (xs ys : List Note) :
    heard h (xs ++ ys) = heard h xs ++ heard h ys := List.filterMap_append

theorem heard_told (h : Handle) (es : List Event) : heard h (es.map (.told h)) = es := by
  induction es with
  | nil => rfl
  | cons e es ih =>
    rw [List.map_cons]
    unfold heard at ih ⊢
    rw [List.filterMap_cons, ih]
    simp

theorem heard_told_ne {h k : Handle} (hk : k ≠ h) (es : List Event) :
    heard h (es.map (.told k)) = [] := by
  unfold heard
  rw [List.filterMap_map]
  exact List.filterMap_eq_nil_iff.mpr fun e _ => by simp [hk]

theorem ResponsePart.part?_task (h : Handle) (p : ResponsePart) : (p.task h).part? h = some p := by
  cases p <;> simp [ResponsePart.task, Task.part?, ResponsePart.operation, Operation.handle?,
    Operation.part?]

theorem ResponsePart.part?_task_ne {h k : Handle} (hk : k ≠ h) (p : ResponsePart) :
    (p.task k).part? h = none := by
  cases p <;> simp [ResponsePart.task, Task.part?, ResponsePart.operation, Operation.handle?, hk]

namespace Host

/-- What a host keeps as long as no application answers and nobody closes the
queue. -/
structure Listens (w : Host) : Prop where
  sound : w.client.Sound
  onThread : w.onThread = true
  silent : ∀ n app, w.applications.find? n = some app → app = .silent
  queue : w.intake.channels = [⟨w.intake.pending 0, true⟩]
  /-- No two registered streams share a serial. -/
  apart : ∀ {h k b s b' t}, w.client.entry h = some (b, s) → w.client.entry k = some (b', t) →
    s.id.serial = t.id.serial → h = k

/-- The host after an operation; a fault leaves it as it was. -/
def does (w : Host) (op : Operation) : Host :=
  (w.client.advance ⟨op, w.network⟩).2.foldl emit
    { w with client := (w.client.advance ⟨op, w.network⟩).1 }

/-- The host with more tasks behind its queue. -/
def push (w : Host) (ts : List Task) : Host :=
  { w with intake := { w.intake with channels := [⟨w.intake.pending 0 ++ ts, true⟩] } }

/-- The parts of a response that wait in the queue for a handle. -/
def queued (w : Host) (h : Handle) : List ResponsePart :=
  (w.intake.pending 0).filterMap (Task.part? h)

/-- Parts for a handle that go behind the queue wait for it. -/
theorem queued_append {v w : Host} {h : Handle} {parts : List ResponsePart}
    (hp : v.intake.pending 0 = w.intake.pending 0 ++ parts.map (ResponsePart.task h)) :
    v.queued h = w.queued h ++ parts := by
  have hpart : Task.part? h ∘ ResponsePart.task h = some := funext fun p => p.part?_task h
  unfold queued
  rw [hp, List.filterMap_append, List.filterMap_map, hpart, List.filterMap_some]

section Effects

variable {w : Host}

theorem operate_of_step {op : Operation} {r : Client × List Output} (ht : w.onThread = true)
    (hs : w.client.step w.network op = .ok r) : w.operate op = .ok (w.does op) := by
  have hadv : w.client.advance ⟨op, w.network⟩ = r := by
    unfold Client.advance
    rw [hs]
  have hbound : ¬ (!w.onThread && op != .sweep) = true := by simp [ht]
  unfold operate does
  rw [if_neg hbound, hs, hadv]

theorem operate_does {op : Operation} (ht : w.onThread = true) (hop : ∀ h, op ≠ .start h) :
    w.operate op = .ok (w.does op) :=
  operate_of_step ht (w.client.step_ok w.network hop)

/-- A stream can be started under a handle that is free. -/
theorem operate_start (ht : w.onThread = true) {h : Handle} (he : w.client.entry h = none) :
    w.operate (.start h) = .ok (w.does (.start h)) := by
  obtain ⟨r, -, hstart⟩ := Client.start_unregistered he
  exact operate_of_step ht hstart

/-- A task that starts a stream sets up its application first. -/
theorem run_start (ht : w.onThread = true) {h : Handle} (app : Application)
    (he : w.client.entry h = none) :
    w.run (.start h app) = .ok (({ w with
      applications := w.applications.insert w.client.nextSerial app } : Host).does (.start h),
      .nothing) := by
  have hop := operate_start (w := { w with
    applications := w.applications.insert w.client.nextSerial app }) ht he
  unfold run
  dsimp only
  rw [hop]
  rfl

theorem turn_start (ht : w.onThread = true) {h : Handle} (app : Application)
    (he : w.client.entry h = none) :
    w.turn (.start h app) = .ok (({ w with
      applications := w.applications.insert w.client.nextSerial app } : Host).does
        (.start h)).swept := by
  unfold turn
  rw [run_start ht app he]
  exact operate_sweep _

/-- An application that only listens changes nothing. -/
theorem Listens.insert_silent (hw : w.Listens) (n : Nat) :
    ({ w with applications := w.applications.insert n .silent } : Host).Listens := by
  refine ⟨hw.sound, hw.onThread, fun m app hm => ?_, hw.queue, hw.apart⟩
  rw [Dict.find?_insert] at hm
  split at hm
  · exact (Option.some.inj hm).symm
  · exact hw.silent m app hm

theorem Listens.swept (hw : w.Listens) : w.swept.Listens := by
  have hsound : w.swept.client.Sound := Client.sound_advance hw.sound ⟨.sweep, w.network⟩
  exact ⟨hsound, hw.onThread, hw.silent, hw.queue, hw.apart⟩

theorem turn_does {op : Operation} (ht : w.onThread = true) (hop : ∀ h, op ≠ .start h) :
    w.turn (.operate op) = .ok (w.does op).swept := turn_operate (operate_does ht hop)

theorem pending_push (ts : List Task) : (w.push ts).intake.pending 0 = w.intake.pending 0 ++ ts :=
  rfl

theorem enqueueParts_eq (hq : w.intake.channels = [⟨w.intake.pending 0, true⟩]) (h : Handle)
    (parts : List ResponsePart) :
    w.enqueueParts h parts = w.push (parts.map (ResponsePart.task h)) := by
  unfold enqueueParts push
  cases hi : w.intake with
  | mk waiting target terminated channels =>
    rw [hi] at hq
    generalize Intake.pending _ 0 = pending at hq ⊢
    obtain rfl : channels = [⟨pending, true⟩] := hq
    rw [Intake.sendAll_open]
    rfl

theorem tell_eq (hw : ∀ n app, w.applications.find? n = some app → app = .silent) (id : StreamId)
    (e : Event) : w.tell id e = { w with notes := w.notes ++ [.told id.handle e] } := by
  unfold tell
  dsimp only
  cases happ : w.applications.find? id.serial with
  | none => rfl
  | some app =>
    obtain rfl := hw _ _ happ
    rfl

theorem tells_eq (hw : ∀ n app, w.applications.find? n = some app → app = .silent) (id : StreamId)
    (es : List Event) : (es.map (.told id)).foldl emit w =
      { w with notes := w.notes ++ es.map (.told id.handle) } := by
  induction es generalizing w with
  | nil => simp
  | cons e es ih =>
    have htell : w.emit (.told id e) = { w with notes := w.notes ++ [.told id.handle e] } :=
      tell_eq hw id e
    have hrest := ih (w := { w with notes := w.notes ++ [.told id.handle e] }) hw
    rw [List.map_cons, List.foldl_cons, htell, hrest]
    simp

theorem does_idle {op : Operation} (h : w.client.advance ⟨op, w.network⟩ = (w.client, [])) :
    w.does op = w := by
  unfold does
  rw [h]
  rfl

theorem does_started (hw : w.Listens) {h : Handle} (he : w.client.entry h = none) :
    ∃ d : Client, d.Sound ∧ Client.Puts { w.client with
          nextSerial := w.client.nextSerial + 1
          counters := w.client.counters.record .started } h (some (.opened, w.client.fresh h)) d ∧
      w.does (.start h) = { w with
        client := d
        pipeline := w.pipeline.create ⟨h, w.client.nextSerial⟩
        traces := w.traces ++ [(h, .opened)] } := by
  obtain ⟨hout, hp⟩ := Client.advance_started (m := ⟨.start h, w.network⟩) hw.sound rfl he
  refine ⟨_, Client.sound_advance hw.sound _, hp, ?_⟩
  unfold does
  rw [hout]
  rfl

theorem does_sent (hw : w.Listens) {op : Operation} {h : Handle} (hop : op.handle? = some h)
    {call : RequestCall} (hcall : op.call? w.network w.client.draw = some call) {s : Stream}
    (he : w.client.entry h = some (.opened, s)) (hl : s.localClosed = false) :
    ∃ (d : Client) (g : Draws), d.Sound ∧ Client.Puts { w.client with draws := g } h
        (some (.opened, { s with localClosed := op.endsRequest })) d ∧
      w.does op = ({ w with
        client := d
        pipeline := (w.pipeline.call s.id call).1
        traces := w.traces ++ [(h, .called call)] } : Host).push
          ((w.pipeline.call s.id call).2.map (ResponsePart.task h)) := by
  obtain ⟨hout, g, hp⟩ :=
    Client.advance_passed (m := ⟨op, w.network⟩) hw.sound hop hcall he hl
  have hid : s.id.handle = h := (hw.sound.fits he).handle
  refine ⟨_, g, Client.sound_advance hw.sound _, hp, ?_⟩
  unfold does
  rw [hout, ← hid]
  exact enqueueParts_eq (w := { w with
    client := (w.client.advance ⟨op, w.network⟩).1
    pipeline := (w.pipeline.call s.id call).1
    traces := w.traces ++ [(s.id.handle, .called call)] }) hw.queue s.id.handle _

/-- An act that calls nothing is answered by what the application is told. -/
theorem does_answered (hw : w.Listens) {op : Operation} {h : Handle} (hop : op.handle? = some h)
    {a : Act} (ha : op.act? w.client.explicit = some a) (hcalls : a.calls = []) {b : Bucket}
    {s : Stream} (he : w.client.entry h = some (b, s)) :
    ∃ (d : Client) (live : LiveSet), d.Sound ∧
      Client.Puts (w.client.settled s a) h (Client.entryAfter b s a) d ∧
      w.does op = { w with
        client := d, live := live
        notes := w.notes ++ (s.response.act a).events.map (.told h) } := by
  obtain ⟨hout, hp⟩ := Client.advance_answered (m := ⟨op, w.network⟩) hw.sound hop ha he
  have hid : s.id.handle = h := (hw.sound.fits he).handle
  have htells := tells_eq (w := { w with client := (w.client.advance ⟨op, w.network⟩).1 })
    hw.silent s.id (s.response.act a).events
  refine ⟨_, if (s.response.act a).disposition.isFinal then w.live.erase h else w.live,
    Client.sound_advance hw.sound _, hp, ?_⟩
  have hanswer : Client.answer s a = (s.response.act a).events.map (.told s.id) ++
      if (s.response.act a).disposition.isFinal then [.released s.id.handle] else [] := by
    unfold Client.answer
    dsimp only
    rw [hcalls]
    rfl
  unfold does
  rw [hout, hanswer, List.foldl_append, htells, hid]
  split
  · rw [← hid]
    rfl
  · rfl

/-- What an operation can do where applications only listen. -/
inductive Plays (w : Host) (op : Operation) : Host → Prop
  | idle : Plays w op w
  | started {h : Handle} {d : Client} : op.handle? = some h → w.client.entry h = none →
      d.Sound → Client.Puts { w.client with
        nextSerial := w.client.nextSerial + 1
        counters := w.client.counters.record .started } h (some (.opened, w.client.fresh h)) d →
      Plays w op { w with
        client := d
        pipeline := w.pipeline.create ⟨h, w.client.nextSerial⟩
        traces := w.traces ++ [(h, .opened)] }
  | sent {h : Handle} {s : Stream} {d : Client} {g : Draws} {last : Bool} (call : RequestCall) :
      op.handle? = some h → w.client.entry h = some (.opened, s) → d.Sound →
      Client.Puts { w.client with draws := g } h
        (some (.opened, { s with localClosed := last })) d →
      Plays w op (({ w with
        client := d
        pipeline := (w.pipeline.call s.id call).1
        traces := w.traces ++ [(h, .called call)] } : Host).push
          ((w.pipeline.call s.id call).2.map (ResponsePart.task h)))
  | answered {h : Handle} {b : Bucket} {s : Stream} {a : Act} {d : Client} (live : LiveSet) :
      op.handle? = some h → w.client.entry h = some (b, s) → d.Sound →
      Client.Puts (w.client.settled s a) h (Client.entryAfter b s a) d →
      Plays w op { w with
        client := d, live := live
        notes := w.notes ++ (s.response.act a).events.map (.told h) }

/-- An operation that calls no request object on its own account plays so: all
but a cancel and a reset. -/
theorem plays_does (hw : w.Listens) {op : Operation} {h : Handle} (hop : op.handle? = some h)
    (hcancel : op ≠ .cancel h)
    (hcalls : ∀ a, op.act? w.client.explicit = some a → a.calls = []) : Plays w op (w.does op) := by
  have kept {v : Host} (hv : v = w) : Plays w op v := hv ▸ .idle
  rcases Client.kinds_of_handle hop w.client.explicit with
    rfl | hs | rfl | ⟨a, ha⟩ | ⟨credit, rfl, hg⟩
  · cases he : w.client.entry h with
    | none =>
      obtain ⟨d, hd, hp, heq⟩ := does_started hw he
      rw [heq]
      exact .started rfl he hd hp
    | some e => exact kept (does_idle (Client.advance_taken (m := ⟨.start h, w.network⟩) rfl he))
  · by_cases hopen : ∃ s, w.client.entry h = some (.opened, s) ∧ s.localClosed = false
    · obtain ⟨s, he, hl⟩ := hopen
      obtain ⟨call, hcall⟩ := Operation.call?_of_sends hs w.network w.client.draw
      obtain ⟨d, g, hd, hp, heq⟩ := does_sent hw hop hcall he hl
      rw [heq]
      exact .sent call hop he hd hp
    · refine kept (does_idle (Client.advance_unsent hw.sound hop hs fun s he => ?_))
      exact Bool.of_not_eq_false fun hf => hopen ⟨s, he, hf⟩
  · exact absurd rfl hcancel
  · cases he : w.client.entry h with
    | none =>
      have hstart : op ≠ .start h := by
        rintro rfl
        cases ha
      exact kept (does_idle (Client.advance_of_unregistered hw.sound.disjoint hop hstart he))
    | some e =>
      obtain ⟨d, live, hd, hp, heq⟩ :=
        does_answered hw hop ha (hcalls a ha) (b := e.1) (s := e.2) he
      rw [heq]
      exact .answered live hop he hd hp
  · exact kept (does_idle (Client.advance_ungranted (m := ⟨.resume h credit, w.network⟩) rfl hg))

theorem plays_send (hw : w.Listens) {op : Operation} {h : Handle} (hop : op.handle? = some h)
    (hsends : op.sends = true) : Plays w op (w.does op) := by
  refine plays_does hw hop (fun hc => ?_) fun a ha => ?_
  · rw [hc] at hsends
    cases hsends
  · rw [Client.act?_of_sends hsends] at ha
    cases ha

theorem plays_start (hw : w.Listens) (h : Handle) : Plays w (.start h) (w.does (.start h)) :=
  plays_does hw rfl Operation.noConfusion fun _ ha => by cases ha

end Effects

section Plays

variable {v w : Host} {op : Operation}

/-- Replacing one entry keeps serials apart, if the new one is the old one's or new. -/
theorem Listens.apart_puts (hw : w.Listens) {c' d : Client} {h : Handle}
    {e : Option (Bucket × Stream)} (hp : Client.Puts c' h e d) (hc : c'.streams = w.client.streams)
    (he : ∀ b s, e = some (b, s) → ∀ k b' t, k ≠ h → w.client.entry k = some (b', t) →
      s.id.serial ≠ t.id.serial) {j k : Handle} {b b' : Bucket} {s t : Stream}
    (hj : d.entry j = some (b, s)) (hk : d.entry k = some (b', t))
    (hserial : s.id.serial = t.id.serial) : j = k := by
  have elsewhere {i : Handle} (hi : i ≠ h) : d.entry i = w.client.entry i := by
    rw [hp.entry, if_neg hi]
    unfold Client.entry
    rw [hc]
  have here : d.entry h = e := (hp.entry h).trans (if_pos rfl)
  by_cases hjh : j = h
  · by_cases hkh : k = h
    · rw [hjh, hkh]
    · rw [hjh, here] at hj
      rw [elsewhere hkh] at hk
      exact absurd hserial (he b s hj k b' t hkh hk)
  · by_cases hkh : k = h
    · rw [hkh, here] at hk
      rw [elsewhere hjh] at hj
      exact absurd hserial.symm (he b' t hk j b s hjh hj)
    · rw [elsewhere hjh] at hj
      rw [elsewhere hkh] at hk
      exact hw.apart hj hk hserial

theorem Plays.listens (hw : w.Listens) (hv : Plays w op v) : v.Listens := by
  have same {h : Handle} {b : Bucket} {s : Stream} (he : w.client.entry h = some (b, s))
      {k : Handle} {b' : Bucket} {t : Stream} (hk : k ≠ h)
      (ht : w.client.entry k = some (b', t)) : s.id.serial ≠ t.id.serial :=
    fun hserial => hk (hw.apart he ht hserial).symm
  cases hv with
  | idle => exact hw
  | started _ _ hd hp =>
    refine ⟨hd, hw.onThread, hw.silent, hw.queue, hw.apart_puts hp rfl ?_⟩
    intro b s hs k b' t _ ht
    cases hs
    exact (Nat.ne_of_lt (hw.sound.fits ht).started).symm
  | sent _ _ he hd hp =>
    refine ⟨hd, hw.onThread, hw.silent, rfl, hw.apart_puts hp rfl ?_⟩
    intro b s hs k b' t hk ht
    cases hs
    exact same he hk ht
  | @answered _ b s a _ _ _ he hd hp =>
    refine ⟨hd, hw.onThread, hw.silent, hw.queue, hw.apart_puts hp rfl ?_⟩
    intro b' t hs k b'' u hk hu
    unfold Client.entryAfter at hs
    split at hs
    · cases hs
    · cases hs
      exact same he hk hu

/-- What a handle can see of the host: its entry, the mode, the request object of
its stream, the parts that wait for it, and what its application was told. -/
structure Same (v w : Host) (h : Handle) : Prop where
  entry : v.client.entry h = w.client.entry h
  explicit : v.client.explicit = w.client.explicit
  request : ∀ b s, w.client.entry h = some (b, s) →
    v.pipeline.requests.find? s.id.serial = w.pipeline.requests.find? s.id.serial
  queued : v.queued h = w.queued h
  heard : heard h v.notes = heard h w.notes

/-- An operation leaves the other handles alone. -/
theorem Plays.frame (hw : w.Listens) (hv : Plays w op v) {k : Handle} (hk : op.handle? ≠ some k) :
    Same v w k := by
  have apart {h : Handle} (hop : op.handle? = some h) : k ≠ h := by
    rintro rfl
    exact hk hop
  have elsewhere {c' d : Client} {h : Handle} {e : Option (Bucket × Stream)}
      (hp : Client.Puts c' h e d) (hc : c'.streams = w.client.streams)
      (hop : op.handle? = some h) : d.entry k = w.client.entry k := by
    rw [hp.entry, if_neg (apart hop)]
    unfold Client.entry
    rw [hc]
  cases hv with
  | idle => exact ⟨rfl, rfl, fun _ _ _ => rfl, rfl, rfl⟩
  | started hop _ _ hp =>
    refine ⟨elsewhere hp rfl hop, hp.explicit, fun b s hs => ?_, rfl, rfl⟩
    have hlt := (hw.sound.fits hs).started
    unfold Pipeline.create
    dsimp only
    split
    · rw [Dict.find?_insert, if_neg (Nat.ne_of_lt hlt)]
    · rfl
  | @sent h s _ _ _ call hop he _ hp =>
    refine ⟨elsewhere hp rfl hop, hp.explicit, fun b t ht => ?_, ?_, rfl⟩
    · have hne : t.id.serial ≠ s.id.serial := fun hserial => apart hop (hw.apart ht he hserial)
      show (w.pipeline.call s.id call).1.requests.find? _ = _
      unfold Pipeline.call
      split
      · rfl
      · dsimp only
        rw [Dict.find?_insert, if_neg hne]
    · unfold Host.queued
      rw [pending_push, List.filterMap_append, List.filterMap_map]
      have hnone :
          (w.pipeline.call s.id call).2.filterMap (Task.part? k ∘ ResponsePart.task h) = [] :=
        List.filterMap_eq_nil_iff.mpr fun p _ => p.part?_task_ne (Ne.symm (apart hop))
      rw [hnone, List.append_nil]
  | answered _ hop _ _ hp =>
    refine ⟨elsewhere hp rfl hop, hp.explicit, fun _ _ _ => rfl, rfl, ?_⟩
    rw [heard_append, heard_told_ne (Ne.symm (apart hop)), List.append_nil]

end Plays
end Host
end HttpExchange
