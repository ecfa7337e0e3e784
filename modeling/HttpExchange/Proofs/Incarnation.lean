/-
# Streams that follow each other under a handle

What an encoder puts into the queue names its stream by the handle alone, and a
handle can be started again. So a part of a response goes to whatever stream is
registered under the handle at the turn that takes it: to nobody if there is
none, and to a later stream as if it were that stream's own. Only the order of
the queue keeps incarnations apart: what was put in before the later start has
run before there is a later stream.

Key definitions: `StreamId.event`, `Host.Hands`.
Key theorem: `response_goes_to_registered`.
-/
import HttpExchange.Proofs.Dispatch

namespace HttpExchange

open Registry (Bucket)

/-- What the encoder of a stream puts into the dispatcher's queue. -/
def StreamId.event (id : StreamId) (part : ResponsePart) : Task :=
  .operate (part.operation id.handle)

namespace Host

variable {w : Host}

/-- The host once the retired streams are gone. -/
def swept (w : Host) : Host := { w with client := { w.client with retired := [] } }

/-- A turn hands a part of a response to a registered stream: the stream answers
it, its entry and the counts change with it, and nothing else does. -/
def Hands (w : Host) (part : ResponsePart) (b : Bucket) (s : Stream) : Prop :=
  ∃ d, Client.Puts (w.client.settled s (.arrive part)) s.id.handle
      (Client.entryAfter b s (.arrive part)) d ∧
    w.turn (s.id.event part) =
      .ok ((Client.answer s (.arrive part)).foldl emit { w with client := d }).swept

theorem operate_sweep (w : Host) : w.operate .sweep = .ok w.swept := by
  unfold operate
  rw [show (Operation.sweep != Operation.sweep) = false from rfl, Bool.and_false]
  rfl

theorem turn_operate {op : Operation} {v : Host} (h : w.operate op = .ok v) :
    w.turn (.operate op) = .ok v.swept := by
  unfold turn run
  dsimp only
  rw [h]
  exact operate_sweep v

theorem step_part (network : Network) (c : Client) (h : Handle) (part : ResponsePart) :
    c.step network (part.operation h) =
      .ok (c.respond h (Act.arrive part).closes (Act.arrive part).calls fun r =>
        r.act (.arrive part)) := by
  cases part <;> rfl

/-- The turn of an event does what the response side answers, and then sweeps. -/
theorem turn_event (ht : w.onThread = true) (id : StreamId) (part : ResponsePart) {d : Client}
    {outs : List Output} (hr : w.client.respond id.handle (Act.arrive part).closes
      (Act.arrive part).calls (fun r => r.act (.arrive part)) = (d, outs)) :
    w.turn (id.event part) = .ok (outs.foldl emit { w with client := d }).swept := by
  apply turn_operate
  unfold operate
  rw [ht, step_part, hr]
  rfl

theorem turn_event_unregistered (ht : w.onThread = true) {id : StreamId}
    (he : w.client.entry id.handle = none) (part : ResponsePart) :
    w.turn (id.event part) = .ok w.swept :=
  turn_event ht id part (Client.respond_unregistered he _ _ _)

theorem hands_of_registered (ht : w.onThread = true) (hw : w.client.Sound) {h : Handle} {b : Bucket}
    {s : Stream} (he : w.client.entry h = some (b, s)) (part : ResponsePart) :
    w.Hands part b s := by
  obtain rfl : s.id.handle = h := (hw.fits he).handle
  obtain ⟨hout, hput⟩ := Client.respond_registered hw.disjoint he (.arrive part)
  exact ⟨_, hput, turn_event ht s.id part (Prod.ext rfl hout)⟩

end Host

/-- A stream that is yet to be started is not registered, and told nothing. -/
theorem unheard_of_unstarted {c : Client} (hc : c.Sound) {id : StreamId}
    (hn : c.nextSerial ≤ id.serial) : c.find id = none ∧ ∀ m, told id (c.advance m).2 = [] := by
  have hf : c.find id = none := by
    apply Option.eq_none_iff_forall_ne_some.mpr
    intro s hs
    have hlt := Client.serial_lt_of_find hc hs
    omega
  refine ⟨hf, fun m => ?_⟩
  rcases Client.sees_advance hc id m with ⟨_, _, ho, _⟩ | ⟨_, _, _, _, ho⟩ | ⟨h⟩ | ⟨_, h⟩ | ⟨_, _, h⟩
  · exact ho
  · rw [ho]
    rfl
  all_goals
    rw [hf] at h
    cases h

namespace Session

variable {r r' : List Task} {w w' : Host} {ts : List Turn}

theorem Ready.event {t : Turn} (ht : Ready t.host) {source : StreamId} {part : ResponsePart}
    (htask : t.task = source.event part) :
    (t.host.client.entry source.handle = none → t.host.turn t.task = .ok t.host.swept) ∧
    ∀ b s, t.host.client.entry source.handle = some (b, s) →
      t.task = s.id.event part ∧ t.host.Hands part b s := by
  refine ⟨fun he => ?_, fun b s he => ⟨?_, ?_⟩⟩
  · rw [htask]
    exact Host.turn_event_unregistered ht.onThread he part
  · have hhandle : s.id.handle = source.handle := (ht.sound.fits he).handle
    rw [htask]
    unfold StreamId.event
    rw [hhandle]
  · exact Host.hands_of_registered ht.onThread ht.sound he part

/-- At an earlier turn nothing is heard of the stream that a later turn starts. -/
theorem Goes.unheard (h : Goes r w ts r' w') (hw : Ready w) {a b : Turn} (ha : a ∈ ts)
    (hb : b ∈ ts) (hab : a.earlier.length < b.earlier.length) (k : Handle) :
    a.host.client.find ⟨k, b.host.client.nextSerial⟩ = none ∧
      ∀ m, told ⟨k, b.host.client.nextSerial⟩ (a.host.client.advance m).2 = [] := by
  have hsound : a.host.client.Sound := ((h.ready hw).2 a ha).sound
  have hserial : a.host.client.nextSerial ≤ b.host.client.nextSerial := h.serial_le hw ha hb hab
  exact unheard_of_unstarted hsound hserial

end Session

/-- An event that the encoder of a stream raised does nothing at a turn at which
no stream is registered under the handle. Otherwise it is an event of the stream
that is registered there, even if that stream was started later. The queue keeps
it from a later stream if it was put in before the start: at the turn of the
start all that was put in before has run, at turns at which nothing was told of
the later stream. -/
theorem response_goes_to_registered (config : Config) (answers : Bool) (draws : Draws)
    (steps more : List Session.Step) (source : StreamId) (part : ResponsePart) :
    let w := Session.after (Session.start config answers true draws) steps
    (∀ turn ∈ Session.turns [] w more, turn.task = source.event part →
      (turn.host.client.entry source.handle = none →
        turn.host.turn turn.task = .ok turn.host.swept) ∧
      ∀ b s, turn.host.client.entry source.handle = some (b, s) →
        turn.task = s.id.event part ∧ turn.host.Hands part b s) ∧
    ∀ xs app ys, w.intake.pending 0 = xs ++ .start source.handle app :: ys →
      ∀ start ∈ Session.turns [] w more, start.earlier.length = xs.length →
        start.earlier = xs ∧ start.task = .start source.handle app ∧
        ∀ turn ∈ Session.turns [] w more, turn.earlier.length < xs.length →
          turn.host.client.find ⟨source.handle, start.host.client.nextSerial⟩ = none ∧
          ∀ m, told ⟨source.handle, start.host.client.nextSerial⟩
            (turn.host.client.advance m).2 = [] := by
  intro w
  obtain ⟨_, hsteps⟩ := Session.goes_turns [] (Session.start config answers true draws) steps
  have hw : Session.Ready w := (hsteps.ready (Session.ready_start config answers draws)).1
  obtain ⟨_, hgoes⟩ := Session.goes_turns [] w more
  refine ⟨fun turn hturn htask => ?_, fun xs app ys hpending start hstart hlen => ?_⟩
  · exact ((hgoes.ready hw).2 turn hturn).event htask
  · have hkeeps : Session.Keeps (xs ++ [.start source.handle app]) [] w := by
      have hsplit := hpending.trans (List.append_cons xs (.start source.handle app) ys)
      right
      rw [List.nil_append, hsplit]
      exact List.prefix_append _ _
    obtain ⟨hxs, htask⟩ := hgoes.task_at hkeeps hstart hlen
    refine ⟨hxs, htask, fun turn hturn hlt => ?_⟩
    exact hgoes.unheard hw hturn hstart (by omega) source.handle

/-- An event raised before a stream is cancelled, with the second start of the
handle behind it in the queue, and with the second start made past the queue. -/
theorem response_goes_to_restarted :
    let part : ResponsePart := .headers (.ofList [(Headers.statusName, "200")]) true
    let source : StreamId := ⟨⟨1⟩, 0⟩
    let queued := Session.after (Session.start {} false true {}) [.direct (.start ⟨1⟩ .silent),
      .encode ⟨1⟩ part, .direct (.operate (.cancel ⟨1⟩)), .post (.start ⟨1⟩ .silent)]
    let restarted := Session.after (Session.start {} false true {}) [.direct (.start ⟨1⟩ .silent),
      .encode ⟨1⟩ part, .direct (.operate (.cancel ⟨1⟩)), .direct (.start ⟨1⟩ .silent)]
    (∃ event ∈ Session.turns [] queued [.run 2], event.task = source.event part ∧
      event.host.turn event.task = .ok event.host.swept ∧
      ∃ start ∈ Session.turns [] queued [.run 2], start.earlier = [source.event part] ∧
        event.host.client.find ⟨⟨1⟩, start.host.client.nextSerial⟩ = none) ∧
    ∃ event ∈ Session.turns [] restarted [.run 1], ∃ b s,
      event.host.client.entry ⟨1⟩ = some (b, s) ∧ s.id = ⟨⟨1⟩, 1⟩ ∧ event.host.Hands part b s := by
  intro part source queued restarted
  have hq := response_goes_to_registered {} false {} [.direct (.start ⟨1⟩ .silent),
      .encode ⟨1⟩ part, .direct (.operate (.cancel ⟨1⟩)), .post (.start ⟨1⟩ .silent)] [.run 2]
    source part
  have hr := response_goes_to_registered {} false {} [.direct (.start ⟨1⟩ .silent),
      .encode ⟨1⟩ part, .direct (.operate (.cancel ⟨1⟩)), .direct (.start ⟨1⟩ .silent)] [.run 1]
    source part
  have hevent := List.get_mem (Session.turns [] queued [.run 2]) ⟨0, by decide⟩
  have hstart := List.get_mem (Session.turns [] queued [.run 2]) ⟨1, by decide⟩
  have hstale := List.get_mem (Session.turns [] restarted [.run 1]) ⟨0, by decide⟩
  have hentry : ((Session.turns [] restarted [.run 1]).get ⟨0, by decide⟩).host.client.entry ⟨1⟩ =
      some (.opened, { id := ⟨⟨1⟩, 1⟩, response := { explicit := false, high := 1000000 } }) := by
    decide
  have hlast := hq.2 [source.event part] .silent [] rfl _ hstart (by decide)
  refine ⟨⟨_, hevent, by rfl, ?_, _, hstart, hlast.1, ?_⟩, ⟨_, hstale, _, _, hentry, rfl, ?_⟩⟩
  · exact (hq.1 _ hevent rfl).1 (by decide)
  · exact (hlast.2.2 _ hevent (by decide)).1
  · exact ((hr.1 _ hstale rfl).2 _ _ hentry).2

/-- A response that was raised for a stream, and is still in the queue when that
stream is cancelled and its handle started again, completes the later stream. -/
theorem response_crosses_restart :
    let part : ResponsePart := .headers (.ofList [(Headers.statusName, "200")]) true
    let raised := Session.after (Session.start {} false true {})
      [.direct (.start ⟨1⟩ .silent), .encode ⟨1⟩ part]
    let restarted := Session.after raised
      [.direct (.operate (.cancel ⟨1⟩)), .direct (.start ⟨1⟩ .silent)]
    let ran := Session.after restarted [.run 1]
    (raised.client.nextSerial = 1 ∧
      raised.intake.pending 0 = [StreamId.event ⟨⟨1⟩, 0⟩ part]) ∧
    (restarted.client.find ⟨⟨1⟩, 0⟩ = none ∧ (restarted.client.find ⟨⟨1⟩, 1⟩).isSome ∧
      restarted.client.outcomes = { cancel := 1 }) ∧
    told ⟨⟨1⟩, 1⟩ (restarted.client.advance ⟨part.operation ⟨1⟩, restarted.network⟩).2 =
      [.headers (.ofList [(Headers.statusName, "200")]) true, .complete] ∧
    ran.client.find ⟨⟨1⟩, 1⟩ = none ∧ ran.client.outcomes = { success := 1, cancel := 1 } := by
  intro part raised restarted ran
  refine ⟨⟨by decide, rfl⟩, ⟨by decide, by decide, by decide⟩, by decide, by decide, by decide⟩

end HttpExchange
