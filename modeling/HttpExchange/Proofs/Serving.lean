/-
# The dispatcher of one exchange

The engine that the command line starts has one stream, and its queue holds few
kinds of tasks: the start and the two sends of the request, the parts of the answer
and the grants of the reader. Where the dispatcher is in this (`Cli.Serves`) tells
what is still to be passed on, and a turn on the first task of the queue passes on
some of it (`Cli.Serves.turn`).

Calls of the main task only put tasks behind the queue, whether the dispatcher
runs yet or not (`Cli.post_around`).

Key definitions: `Cli.echoed`, `Cli.Attends`, `Cli.around`, `Cli.Serves`,
`Cli.Turned`.
Key theorems: `Cli.call_post`, `Cli.call_start`, `Cli.call_resume`,
`Cli.answer_eq`, `Cli.Serves.turn`.
-/
import HttpExchange.Proofs.Pacing

namespace HttpExchange
namespace Cli

open Registry (Bucket)
open Response (Owes Yields credits)

/-! ### What is to be told -/

/-- The cluster that the request is routed to. -/
def cluster (o : Options) (config : Config) (draws : Draws) : String :=
  clusterFor (some o.scheme) none config.network.preferred (draws.next.1 % 2 == 1)

/-- The events of an exchange that asks for no error. -/
def echoed (o : Options) (config : Config) (draws : Draws) : List Event :=
  let body := Text.Utf8.encode o.body
  .headers (.ofList [(":status", "200"),
    ("x-loopback-cluster", cluster o config draws)]) false ::
    (if config.flowControl.explicit then (slices o.credit body).map (.data · false)
      else if body.isEmpty then [] else [.data body false]) ++
    [.trailers (.ofList [("x-loopback-trailer", "done")]), .complete]

/-! ### The host behind the engine -/

/-- The intake once the dispatcher runs, with some tasks in the queue. -/
def opened (q : List Task) : Intake Task where
  target := some ⟨0, 1⟩
  channels := [⟨q, true⟩]

/-- The engine around a host; until it is built, its queue waits in the intake. -/
def around (w : Host) : Bool → Engine
  | true => { host := w, phase := .serving }
  | false =>
    { host := { w with intake := { waiting := w.intake.pending 0 } }, phase := .building }

/-- The host of an exchange, with some tasks in the queue. -/
structure Attends (config : Config) (w : Host) (q : List Task) : Prop extends Host.Listens w where
  intake : w.intake = opened q
  attached : w.attached = true
  explicit : w.client.explicit = config.flowControl.explicit
  network : w.network = config.network.preferred
  answers : w.pipeline.answers = true

section Attends

variable {config : Config} {v w : Host} {q : List Task} {t : Task}

theorem push_opened (hw : w.intake = opened q) (ts : List Task) :
    (w.push ts).intake = opened (q ++ ts) := by
  unfold Host.push
  rw [hw]
  rfl

theorem Attends.pending (hw : Attends config w q) : w.intake.pending 0 = q := by
  rw [hw.intake]
  rfl

/-- An operation leaves a host in which applications only listen such a host. -/
theorem Attends.plays (hw : Attends config w q) {op : Operation} (hv : Host.Plays w op v) :
    Attends config v (v.intake.pending 0) := by
  have hlistens := hv.listens hw.toListens
  have hintake : w.intake = opened (w.intake.pending 0) := hw.pending.symm ▸ hw.intake
  cases hv with
  | idle => exact ⟨hlistens, hintake, hw.attached, hw.explicit, hw.network, hw.answers⟩
  | started _ _ _ hp =>
    refine ⟨hlistens, hintake, hw.attached, hp.explicit.trans hw.explicit, hw.network, ?_⟩
    unfold Pipeline.create
    exact hw.answers
  | @sent h s d _ _ call _ _ _ hp =>
    have hpush := push_opened (w := { w with
      client := d
      pipeline := (w.pipeline.call s.id call).1
      traces := w.traces ++ [(h, .called call)] }) hw.intake
        ((w.pipeline.call s.id call).2.map (ResponsePart.task h))
    refine ⟨hlistens, ?_, hw.attached, hp.explicit.trans hw.explicit, hw.network, ?_⟩
    · rw [hpush]
      rfl
    · show (w.pipeline.call s.id call).1.answers = true
      unfold Pipeline.call
      split <;> exact hw.answers
  | answered _ _ _ _ hp =>
    exact ⟨hlistens, hintake, hw.attached, hp.explicit.trans hw.explicit, hw.network, hw.answers⟩

theorem Attends.swept_forget (hw : Attends config w q) : Attends config w.swept.forget q := by
  have hs := hw.toListens.swept
  exact ⟨⟨hs.sound, hs.onThread, hs.silent, hs.queue, hs.apart⟩, hw.intake, hw.attached,
    hw.explicit, hw.network, hw.answers⟩

/-- A task behind the queue. -/
theorem Attends.push (hw : Attends config w q) (t : Task) :
    Attends config (w.push [t]) (q ++ [t]) :=
  ⟨⟨hw.sound, hw.onThread, hw.silent, rfl, hw.apart⟩, push_opened hw.intake [t], hw.attached,
    hw.explicit, hw.network, hw.answers⟩

/-- The first task is taken off the queue. -/
theorem Attends.pop (hw : Attends config w (t :: q)) :
    w.intake.next? 0 = some (t, opened q) ∧
      Attends config { w with intake := opened q } q := by
  refine ⟨?_, ⟨⟨hw.sound, hw.onThread, hw.silent, rfl, hw.apart⟩, rfl, hw.attached, hw.explicit,
    hw.network, hw.answers⟩⟩
  rw [hw.intake]
  rfl

/-- What waits in the intake goes to the dispatcher when it is built. -/
theorem build_around (hw : Attends config w q) : (around w false).build = around w true := by
  have hall := Intake.sendAll_open q [] none false q
  have hstart : (Intake.addChannel { waiting := q } {}).start ⟨0, 1⟩ = opened q := by
    have hadd : (Intake.addChannel { waiting := q } {} : Intake Task) =
        ⟨q, none, false, [⟨[], true⟩]⟩ := rfl
    rw [hadd]
    unfold Intake.start
    dsimp only
    rw [hall]
    rfl
  have hpending := hw.pending
  unfold around Engine.build
  dsimp only
  rw [hpending, hstart, ← hw.intake]

/-- A task that is posted is accepted, whether the dispatcher runs yet or not. -/
theorem post_around (hw : Attends config w q) (built : Bool) (t : Task) :
    (around w built).host.post t = ((around (w.push [t]) built).host, .ok ()) := by
  cases built with
  | true =>
    have hpost : w.intake.post t = ((w.push [t]).intake, .ok ()) := by
      rw [push_opened hw.intake, hw.intake]
      rfl
    unfold around Host.post
    dsimp only
    rw [hpost]
    rfl
  | false => rfl

theorem attached_around (hw : Attends config w q) (built : Bool) :
    (around w built).host.attached = true := by
  cases built <;> exact hw.attached

theorem client_around (w : Host) (built : Bool) : (around w built).host.client = w.client := by
  cases built <;> rfl

/-- What the queue and the operations do not depend on may change. -/
theorem Attends.claimed (hw : Attends config w q) (live : LiveSet) (n : Int) :
    Attends config { w with live := live, nextHandle := n } q :=
  ⟨⟨hw.sound, hw.onThread, hw.silent, hw.queue, hw.apart⟩, hw.intake, hw.attached, hw.explicit,
    hw.network, hw.answers⟩

/-! ### Calls of the main task -/

theorem call_init (hw : Attends config w q) (built : Bool) :
    (around w built).host.call .init =
      ((around { w with nextHandle := w.nextHandle + 1 } built).host, .handle ⟨w.nextHandle⟩) := by
  unfold Host.call
  dsimp only
  rw [if_pos (attached_around hw built)]
  cases built <;> rfl

variable {x : Exchange} {built : Bool}

theorem engine_around (v w : Host) (built : Bool) :
    ({ around w built with host := (around v built).host } : Engine) = around v built := by
  cases built <;> rfl

/-- A call that is accepted and changes the host. -/
theorem call_accepted (hx : x.engine = around w built) (hn : x.ending = none) {c : Call}
    (hc : (around w built).host.call c = ((around v built).host, .status (.ok ()))) :
    x.call c = { x with engine := around v built } := by
  unfold Exchange.call
  rw [if_neg (by simp [hn]), hx, hc]
  exact congrArg (fun e => { x with engine := e }) (engine_around v w built)

theorem call_post (hw : Attends config w q) (hx : x.engine = around w built) (hn : x.ending = none)
    (t : Task) : x.call (.post t) = { x with engine := around (w.push [t]) built } := by
  refine call_accepted hx hn ?_
  unfold Host.call
  dsimp only
  rw [if_pos (attached_around hw built), post_around hw]

theorem call_resume (hw : Attends config w q) (hx : x.engine = around w built)
    (hn : x.ending = none) (hexplicit : config.flowControl.explicit = true) {credit : Nat}
    (hc : 0 < credit) (h : Handle) :
    x.call (.resume h credit) =
      { x with engine := around (w.push [.operate (.resume h credit)]) built } := by
  have hmode : ¬ (!(around w built).host.client.explicit) = true := by
    rw [client_around, hw.explicit, hexplicit]
    exact Bool.false_ne_true
  refine call_accepted hx hn ?_
  unfold Host.call Host.resume
  dsimp only
  rw [if_pos (attached_around hw built), if_neg hmode, if_neg (Nat.ne_of_gt hc), post_around hw]

/-- The first stream of all can be started under any handle. -/
theorem call_start (hw : Attends config w q) (hx : x.engine = around w built) (hn : x.ending = none)
    (hlive : w.live = {}) (h : Handle) (app : Application) : ∃ live : LiveSet,
      x.call (.start h app) =
        { x with engine := around { w.push [.start h app] with live := live } built } := by
  obtain ⟨live, hclaim⟩ : ∃ live, (around w built).host.live.claim h = some live := by
    have hsame : (around w built).host.live = w.live := by cases built <;> rfl
    rw [hsame, hlive]
    exact ⟨_, rfl⟩
  have hhost : ({ (around w built).host with live := live } : Host) =
      (around { w with live := live } built).host := by cases built <;> rfl
  have hpost := post_around (hw.claimed live w.nextHandle) built (.start h app)
  refine ⟨live, call_accepted hx hn ?_⟩
  unfold Host.call Host.startStream
  dsimp only
  rw [if_pos (attached_around hw built), hclaim]
  dsimp only
  rw [hhost, hpost]
  rfl

end Attends

/-! ### What the request says -/

section Request

variable {o : Options} {config : Config} {draws : Draws}

theorem request_of_no_error (herror : o.errorCode = none) :
    Exchange.request o = .ofList [(":method", "POST"), (":scheme", o.scheme),
      (":authority", "loopback.local"), (":path", "/echo")] := by
  unfold Exchange.request
  rw [herror]

theorem get?_request (herror : o.errorCode = none) :
    (Exchange.request o).scheme? = some o.scheme ∧ (Exchange.request o).protocolHint = none ∧
      (Exchange.request o).get? Loopback.errorName = none := by
  have hmethod (m : String) (hm : Text.alike (Text.lower ":method") m = false) :
      (Exchange.request o).get? m =
        (Headers.ofList [(":scheme", o.scheme), (":authority", "loopback.local"),
          (":path", "/echo")]).get? m := by
    rw [request_of_no_error herror, Headers.get?_ofList, Headers.get?_ofList, List.find?_cons, hm]
  have hnone (m : String) (hs : Text.alike (Text.lower ":scheme") m = false)
      (ha : Text.alike (Text.lower ":authority") m = false)
      (hp : Text.alike (Text.lower ":path") m = false) :
      (Headers.ofList [(":scheme", o.scheme), (":authority", "loopback.local"),
        (":path", "/echo")]).get? m = none := by
    rw [Headers.get?_ofList]
    simp only [List.find?_cons, hs, ha, hp, List.find?_nil, Option.map_none]
  refine ⟨?_, ?_, ?_⟩
  · have hself : Text.alike (Text.lower ":scheme") Headers.schemeName = true := by decide
    unfold Headers.scheme?
    rw [hmethod _ (by decide), Headers.get?_ofList, List.find?_cons, hself]
    rfl
  · unfold Headers.protocolHint
    rw [hmethod _ (by decide), hnone _ (by decide) (by decide) (by decide)]
    rfl
  · rw [hmethod _ (by decide), hnone _ (by decide) (by decide) (by decide)]

/-- The request headers as they are sent. -/
def opening (o : Options) (config : Config) (draws : Draws) : Sent :=
  .headers (Exchange.request o) (cluster o config draws) false

/-- The answer to the request. -/
def answer (o : Options) (config : Config) (draws : Draws) : List ResponsePart :=
  .headers (.ofList [(":status", "200"),
    ("x-loopback-cluster", cluster o config draws)]) false ::
    (if (Text.Utf8.encode o.body).isEmpty then [] else [.data (Text.Utf8.encode o.body) false]) ++
    [.trailers (.ofList [("x-loopback-trailer", "done")])]

theorem answer_eq (herror : o.errorCode = none) :
    (Loopback.gather [opening o config draws, .data (Text.Utf8.encode o.body) true]).answer =
      answer o config draws := by
  have hnone := (get?_request herror).2.2
  have hgather : Loopback.gather [opening o config draws,
      .data (Text.Utf8.encode o.body) true] =
      { cluster := some (cluster o config draws), body := Text.Utf8.encode o.body } := by
    rw [Loopback.gather_eq]
    unfold opening Loopback.lastHeaders?
    simp only [List.filterMap_cons, Sent.block?, List.filterMap_nil, List.getLast?_singleton,
      Option.map_some, Option.bind_some, hnone, List.flatMap_cons, Sent.bytes, List.nil_append,
      List.flatMap_nil, List.append_nil]
  rw [hgather]
  rfl

/-- The answer is three parts at most. -/
theorem length_answer (o : Options) (config : Config) (draws : Draws) :
    (answer o config draws).length ≤ 3 := by
  unfold answer
  split <;> simp

theorem sent?_opening (herror : o.errorCode = none) (h : Handle) :
    (Operation.sendHeaders h (Exchange.request o) false).sent? config.network.preferred
      (draws.next.1 % 2 == 1) = some (opening o config draws) := by
  obtain ⟨hscheme, hhint, -⟩ := get?_request herror
  unfold Operation.sent? opening cluster
  dsimp only
  rw [hscheme, hhint]

/-- The whole answer is owed, before any of it has arrived. -/
theorem owes_answer (high : Nat) :
    Owes config.flowControl.explicit o.credit
      { explicit := config.flowControl.explicit, high := high } (answer o config draws)
      (echoed o config draws) 0 := by
  have hunmarked := Loopback.ofHeaders?_unmarked
    [(Loopback.clusterName, cluster o config draws)]
    fun e he => by rw [List.mem_singleton.mp he]
  exact .whole hunmarked

end Request

/-! ### The dispatcher's side -/

/-- The handle of the exchange. -/
def stream : Handle := ⟨1⟩

/-- The tasks of the first calls. -/
def tasks (o : Options) : List Task :=
  [.start stream .silent, .operate (.sendHeaders stream (Exchange.request o) false),
    .operate (.sendData stream (Text.Utf8.encode o.body) true)]

/-- The task of a grant. -/
def grant (o : Options) : Task := .operate (.resume stream o.credit)

section Serves

variable (o : Options) (config : Config) (draws : Draws)

/-- Where the dispatcher is, with the tasks in its queue, those the main task has yet
to post, the events that are still to be told, how many of those told must be on
their way to be answered with a grant, and the turns that are certain to come. -/
inductive Serves (w : Host) (q todo : List Task) : List Event → Nat → Nat → Prop
  | unstarted : w.client.entry stream = none → w.client.draw = (draws.next.1 % 2 == 1) →
      q ++ todo = tasks o →
      Serves w q todo (echoed o config draws) 0 (3 + (answer o config draws).length)
  | started {s : Stream} : Host.Gathers w stream s [] →
      w.client.draw = (draws.next.1 % 2 == 1) → q ++ todo = (tasks o).drop 1 →
      Serves w q todo (echoed o config draws) 0 (2 + (answer o config draws).length)
  | asked {s : Stream} : Host.Gathers w stream s [opening o config draws] →
      q ++ todo = (tasks o).drop 2 →
      Serves w q todo (echoed o config draws) 0 (1 + (answer o config draws).length)
  | answering {b : Bucket} {s : Stream} {parts : List ResponsePart} {rest : List Event}
      {grants asks : Nat} : w.client.entry stream = some (b, s) →
      Owes config.flowControl.explicit o.credit s.response parts rest (grants + asks) →
      q = parts.map (ResponsePart.task stream) ++ List.replicate grants (grant o) → todo = [] →
      Serves w q todo rest asks q.length
  | gone {grants asks : Nat} : w.client.entry stream = none →
      q = List.replicate grants (grant o) → todo = [] → Serves w q todo [] asks q.length

/-- What a turn on a task does: some events are told, and the rest is still to come. -/
structure Turned (v : Host) (t : Task) (todo : List Task) (rest : List Event) (asks turns : Nat)
    (u : Host) (es more : List Event) : Prop where
  turn : v.turn t = .ok u.swept
  attends : Attends config u (u.intake.pending 0)
  serves : Serves o config draws u (u.intake.pending 0) todo more
    (asks + credits config.flowControl.explicit es) turns
  notes : u.notes = es.map (.told stream)
  events : rest = es ++ more

variable {o config draws}
variable {v w : Host} {q todo : List Task} {t : Task} {rest : List Event} {asks turns : Nat}

theorem credits_nil (explicit : Bool) : credits explicit [] = 0 := by cases explicit <;> rfl

/-- The stream is started. -/
theorem turned_start (hv : Attends config v q) (hnotes : v.notes = [])
    (he : v.client.entry stream = none) (hdraw : v.client.draw = (draws.next.1 % 2 == 1))
    (hq : q ++ todo = (tasks o).drop 1) :
    ∃ u, Turned o config draws v (.start stream .silent) todo (echoed o config draws) 0
      (2 + (answer o config draws).length) u [] (echoed o config draws) := by
  let v' : Host :=
    { v with applications := v.applications.insert v.client.nextSerial .silent }
  have hv' : Attends config v' q := ⟨hv.toListens.insert_silent v.client.nextSerial, hv.intake,
    hv.attached, hv.explicit, hv.network, hv.answers⟩
  obtain ⟨hg, hintake, hsame, hdraw'⟩ := Host.gathers_start hv'.toListens hv'.answers he
  have hplays := Host.plays_start hv'.toListens stream
  have hpending : (v'.does (.start stream)).intake.pending 0 = q := by
    rw [hintake]
    exact hv'.pending
  refine ⟨_, Host.turn_start hv.onThread .silent he, hv'.plays hplays, ?_, hsame.trans hnotes, rfl⟩
  rw [hpending, credits_nil]
  exact .started hg (hdraw'.trans hdraw) hq

/-- The headers are sent. -/
theorem turned_headers (herror : o.errorCode = none) (hv : Attends config v q)
    (hnotes : v.notes = []) {s : Stream} (hg : Host.Gathers v stream s [])
    (hdraw : v.client.draw = (draws.next.1 % 2 == 1)) (hq : q ++ todo = (tasks o).drop 2) :
    ∃ u, Turned o config draws v
      (.operate (.sendHeaders stream (Exchange.request o) false)) todo (echoed o config draws) 0
      (1 + (answer o config draws).length) u [] (echoed o config draws) := by
  have hx : (Operation.sendHeaders stream (Exchange.request o) false).sent? v.network
      v.client.draw = some (opening o config draws) := by
    rw [hv.network, hdraw]
    exact sent?_opening herror stream
  obtain ⟨hnext, hpending, hsame⟩ := Host.gathers_send hv.toListens hg rfl hx rfl
  have hplays : Host.Plays v (.sendHeaders stream (Exchange.request o) false) _ :=
    Host.plays_send hv.toListens rfl rfl
  refine ⟨_, Host.turn_does hv.onThread fun _ => Operation.noConfusion, hv.plays hplays, ?_,
    hsame.trans hnotes, rfl⟩
  rw [hpending, hv.pending, credits_nil]
  exact .asked hnext hq

/-- The body is sent, which ends the request, and the whole answer is in the queue. -/
theorem turned_data (herror : o.errorCode = none) (hv : Attends config v [])
    (hnotes : v.notes = []) {s : Stream}
    (hg : Host.Gathers v stream s [opening o config draws]) :
    ∃ u, Turned o config draws v
      (.operate (.sendData stream (Text.Utf8.encode o.body) true)) [] (echoed o config draws) 0
      (answer o config draws).length u [] (echoed o config draws) := by
  have hx : (Operation.sendData stream (Text.Utf8.encode o.body) true).sent? v.network
      v.client.draw = some (.data (Text.Utf8.encode o.body) true) := rfl
  obtain ⟨hentry, hpending, hsame⟩ := Host.answers_send hv.toListens hg rfl hx rfl
  have hplays : Host.Plays v (.sendData stream (Text.Utf8.encode o.body) true) _ :=
    Host.plays_send hv.toListens rfl rfl
  have hanswer : [opening o config draws] ++ [.data (Text.Utf8.encode o.body) true] =
      [opening o config draws, .data (Text.Utf8.encode o.body) true] := rfl
  rw [hv.pending, List.nil_append, hanswer, answer_eq herror] at hpending
  obtain ⟨high, hfresh⟩ := hg.fresh
  have howes : Owes config.flowControl.explicit o.credit s.response (answer o config draws)
      (echoed o config draws) (0 + 0) := by
    rw [hfresh, hv.explicit]
    exact owes_answer high
  refine ⟨_, Host.turn_does hv.onThread fun _ => Operation.noConfusion, hv.plays hplays, ?_,
    hsame.trans hnotes, rfl⟩
  have hlength : ((answer o config draws).map (ResponsePart.task stream)).length =
      (answer o config draws).length := List.length_map _
  rw [hpending, credits_nil, ← hlength]
  exact .answering hentry howes (List.append_nil _).symm rfl

/-- An act of the response side. -/
theorem turned_act (hv : Attends config v q) (hnotes : v.notes = []) {b : Bucket} {s : Stream}
    (he : v.client.entry stream = some (b, s)) {op : Operation} (hop : op.handle? = some stream)
    {a : Act} (ha : op.act? v.client.explicit = some a) (hcalls : a.calls = [])
    {parts : List ResponsePart} {grants : Nat}
    (hq : q = parts.map (ResponsePart.task stream) ++ List.replicate grants (grant o))
    (hyields : Yields config.flowControl.explicit o.credit parts rest (grants + asks)
      (s.response.act a)) :
    ∃ u es more, Turned o config draws v (.operate op) [] rest asks q.length u es more := by
  obtain ⟨d, live, hd, hputs, heq⟩ := Host.does_answered hv.toListens hop ha hcalls he
  have hstart (h : Handle) : op ≠ .start h := by
    rintro rfl
    cases ha
  have hplays : Host.Plays v op (v.does op) := heq ▸ .answered live hop he hd hputs
  have hpending : (v.does op).intake.pending 0 = q := by
    rw [heq]
    exact hv.pending
  have hentry : (v.does op).client.entry stream = Client.entryAfter b s a := by
    rw [heq]
    exact (hputs.entry stream).trans (if_pos rfl)
  have htold : (v.does op).notes = (s.response.act a).events.map (.told stream) := by
    rw [heq]
    show v.notes ++ _ = _
    rw [hnotes, List.nil_append]
  cases hyields with
  | all hfinal hevents hparts =>
    have hgone : (v.does op).client.entry stream = none := hentry.trans (if_pos hfinal)
    rw [hparts] at hq
    refine ⟨_, _, [], Host.turn_does hv.onThread hstart, hv.plays hplays, ?_, htold,
      by rw [List.append_nil, hevents]⟩
    rw [hpending]
    exact .gone hgone hq rfl
  | @some more hfinal hrest howes =>
    have hkept := hentry.trans (if_neg (by simp [hfinal]))
    refine ⟨_, _, more, Host.turn_does hv.onThread hstart, hv.plays hplays, ?_, htold, hrest⟩
    rw [hpending]
    rw [Nat.add_assoc] at howes
    exact .answering hkept howes hq rfl

/-- A grant that comes when the stream is gone does nothing. -/
theorem turned_late (hv : Attends config v q) (hnotes : v.notes = [])
    (he : v.client.entry stream = none) {grants : Nat}
    (hq : q = List.replicate grants (grant o)) :
    ∃ u, Turned o config draws v (grant o) [] [] asks q.length u [] [] := by
  have hidle : v.does (.resume stream o.credit) = v := Host.does_idle
    (Client.advance_of_unregistered hv.sound.disjoint rfl Operation.noConfusion he)
  have hturn : v.turn (grant o) = _ :=
    Host.turn_does hv.onThread fun _ => Operation.noConfusion
  rw [hidle] at hturn
  refine ⟨v, hturn, ?_, ?_, hnotes, rfl⟩
  · rw [hv.pending]
    exact hv
  · rw [hv.pending]
    exact .gone he hq rfl

/-- A turn on the first task of the queue. -/
theorem Serves.turn (herror : o.errorCode = none)
    (hcredit : config.flowControl.explicit = true → 0 < o.credit)
    (hw : Attends config w (t :: q)) (hnotes : w.notes = [])
    (hs : Serves o config draws w (t :: q) todo rest asks turns) :
    ((∃ h app, t = .start h app) ∨ ∃ op, t = .operate op) ∧
      ∃ n u es more, turns = n + 1 ∧ Turned o config draws
        { w with intake := opened q } t todo rest asks n u es more := by
  have hv := hw.pop.2
  generalize hall : t :: q = all at hs
  cases hs with
  | unstarted he hdraw hq =>
    subst hall
    obtain ⟨rfl, htail⟩ := List.cons.inj hq
    obtain ⟨u, hu⟩ := turned_start hv hnotes he hdraw htail
    exact ⟨.inl ⟨_, _, rfl⟩, _, u, _, _, by omega, hu⟩
  | @started s hg hdraw hq =>
    subst hall
    obtain ⟨rfl, htail⟩ := List.cons.inj hq
    have hg' : Host.Gathers { w with intake := opened q } stream s [] :=
      ⟨hg.entry, hg.goesOn, hg.fresh, hg.request⟩
    obtain ⟨u, hu⟩ := turned_headers herror hv hnotes hg' hdraw htail
    exact ⟨.inr ⟨_, rfl⟩, _, u, _, _, by omega, hu⟩
  | @asked s hg hq =>
    subst hall
    obtain ⟨rfl, htail⟩ := List.cons.inj hq
    obtain ⟨rfl, rfl⟩ := List.append_eq_nil_iff.mp htail
    have hg' : Host.Gathers { w with intake := opened [] } stream s
        [opening o config draws] := ⟨hg.entry, hg.goesOn, hg.fresh, hg.request⟩
    obtain ⟨u, hu⟩ := turned_data herror hv hnotes hg'
    exact ⟨.inr ⟨_, rfl⟩, _, u, _, _, by omega, hu⟩
  | @answering b s parts rest grants asks he howes hq hdone =>
    subst hall hdone
    cases parts with
    | cons p parts =>
      obtain ⟨rfl, htail⟩ := List.cons.inj hq
      obtain ⟨hreset, hyields⟩ := howes.arrive
      obtain ⟨u, es, more, hu⟩ := turned_act hv hnotes he (Host.handle?_part p stream)
        (Host.act?_part p stream _) (Host.calls_part hreset) htail hyields
      exact ⟨.inr ⟨_, rfl⟩, _, u, es, more, rfl, hu⟩
    | nil =>
      obtain ⟨hexplicit, hone, hyields⟩ := howes.grant
      obtain ⟨g, rfl⟩ : ∃ g, grants = g + 1 := by
        cases grants with
        | zero => cases hq
        | succ g => exact ⟨g, rfl⟩
      obtain ⟨rfl, rfl⟩ : g = 0 ∧ asks = 0 := by omega
      obtain ⟨rfl, htail⟩ := List.cons.inj hq
      have hact : (Operation.resume stream o.credit).act? w.client.explicit =
          some (.grant o.credit) := by
        have hpos : o.credit ≠ 0 := Nat.ne_of_gt (hcredit hexplicit)
        unfold Operation.act?
        rw [hw.explicit, hexplicit]
        simp [hpos]
      have hyields' : Yields config.flowControl.explicit o.credit [] rest (0 + 0)
          (s.response.act (.grant o.credit)) := hyields (hcredit hexplicit)
      have htail' : q = [].map (ResponsePart.task stream) ++ List.replicate 0 (grant o) := htail
      obtain ⟨u, es, more, hu⟩ := turned_act hv hnotes he rfl hact rfl htail' hyields'
      exact ⟨.inr ⟨_, rfl⟩, _, u, es, more, rfl, hu⟩
  | @gone grants asks he hq hdone =>
    subst hall hdone
    cases grants with
    | zero => cases hq
    | succ g =>
      obtain ⟨rfl, htail⟩ := List.cons.inj hq
      obtain ⟨u, hu⟩ := turned_late hv hnotes he htail
      exact ⟨.inr ⟨_, rfl⟩, _, u, [], [], rfl, hu⟩

/-- What the dispatcher's side does not see may change. -/
theorem Serves.of_eq (hs : Serves o config draws w q todo rest asks turns)
    (hentry : v.client.entry stream = w.client.entry stream)
    (hexplicit : v.client.explicit = w.client.explicit) (hdraw : v.client.draw = w.client.draw)
    (hpipeline : v.pipeline = w.pipeline) :
    Serves o config draws v q todo rest asks turns := by
  have hgathers {s : Stream} {xs : List Sent} (hg : Host.Gathers w stream s xs) :
      Host.Gathers v stream s xs := by
    refine ⟨hentry.trans hg.entry, hg.goesOn, ?_, ?_⟩
    · rw [hexplicit]
      exact hg.fresh
    · rw [hpipeline]
      exact hg.request
  cases hs with
  | unstarted he hd hq => exact .unstarted (hentry.trans he) (hdraw.trans hd) hq
  | started hg hd hq => exact .started (hgathers hg) (hdraw.trans hd) hq
  | asked hg hq => exact .asked (hgathers hg) hq
  | answering he howes hq hdone => exact .answering (hentry.trans he) howes hq hdone
  | gone he hq hdone => exact .gone (hentry.trans he) hq hdone

/-- One of the first tasks is posted. -/
theorem Serves.posted (hs : Serves o config draws w q (t :: todo) rest asks turns) :
    Serves o config draws w (q ++ [t]) todo rest asks turns := by
  have hsame : q ++ [t] ++ todo = q ++ t :: todo := by rw [List.append_assoc, List.singleton_append]
  cases hs with
  | unstarted he hd hq => exact .unstarted he hd (hsame.trans hq)
  | started hg hd hq => exact .started hg hd (hsame.trans hq)
  | asked hg hq => exact .asked hg (hsame.trans hq)
  | answering _ _ _ hdone => cases hdone
  | gone _ _ hdone => cases hdone

theorem Serves.queue_before_start
    (hs : Serves o config draws w q (tasks o) rest asks turns) : q = [] := by
  generalize htodo : tasks o = todo at hs
  have hlength : todo.length = 3 := htodo ▸ rfl
  have hnone {n : Nat} (hq : q ++ todo = (tasks o).drop n) : q = [] := by
    have htotal := congrArg List.length hq
    rw [List.length_append, List.length_drop, htodo, hlength] at htotal
    exact List.length_eq_zero_iff.mp (by omega)
  cases hs with
  | unstarted _ _ hq => exact hnone (n := 0) hq
  | started _ _ hq => exact hnone hq
  | asked _ hq => exact hnone hq
  | answering _ _ _ hdone =>
    rw [hdone] at hlength
    cases hlength
  | gone _ _ hdone =>
    rw [hdone] at hlength
    cases hlength

/-- An event that asks for credit is answered with a grant. -/
theorem Serves.granted (hs : Serves o config draws w q [] rest (asks + 1) turns) :
    Serves o config draws w (q ++ [grant o]) [] rest asks (turns + 1) := by
  have hlength : (q ++ [grant o]).length = q.length + 1 := List.length_append
  generalize hasks : asks + 1 = n at hs
  cases hs with
  | unstarted _ _ _ => cases hasks
  | started _ _ _ => cases hasks
  | asked _ _ => cases hasks
  | @answering b s parts rest grants _ he howes hq hdone =>
    have htokens : grants + n = grants + 1 + asks := by omega
    have hmore : q ++ [grant o] =
        parts.map (ResponsePart.task stream) ++ List.replicate (grants + 1) (grant o) := by
      rw [hq, List.replicate_succ', List.append_assoc]
    rw [← hlength]
    exact .answering he (htokens ▸ howes) hmore hdone
  | @gone grants _ he hq hdone =>
    have hmore : q ++ [grant o] = List.replicate (grants + 1) (grant o) := by
      rw [hq, List.replicate_succ']
    rw [← hlength]
    exact .gone he hmore hdone

/-- The dispatcher has work as long as something is to be told and everything told
has been read. -/
theorem Serves.busy (hs : Serves o config draws w q [] rest 0 turns) : rest = [] ∨ q ≠ [] := by
  cases hs with
  | unstarted _ _ hq | started _ _ hq =>
    right
    rintro rfl
    cases hq
  | asked _ hq =>
    right
    rintro rfl
    cases hq
  | @answering b s parts rest grants _ _ howes hq _ =>
    right
    intro hnone
    obtain ⟨hparts, hgrants⟩ := List.append_eq_nil_iff.mp (hq.symm.trans hnone)
    obtain rfl : parts = [] := List.map_eq_nil_iff.mp hparts
    have hone := howes.grant.2.1
    have hzero : grants = 0 := by simpa using hgrants
    omega
  | gone _ _ _ => exact .inl rfl

end Serves

end Cli
end HttpExchange
