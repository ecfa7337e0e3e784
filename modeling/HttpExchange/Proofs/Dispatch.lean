/-
# What runs on a dispatcher

Seen from the client, a task is a run of at most one operation, and a turn ends
with a sweep. Whatever applications and the pipeline do in the meantime puts
more work behind the queue and leaves the client alone (`Host.Leads`). So a
session takes the tasks off its queue in the order in which they were put in,
and the client of a later turn comes from the client of an earlier one by a run.

Key definitions: `Intake.Grows`, `Host.Advances`, `Host.Leads`, `Session.after`,
`Session.turns`, `Session.Goes`.
Key theorems: `Host.leads_turn`, `Session.goes_turns`, `Session.Goes.in_order`,
`Session.Goes.task_at`, `Session.Goes.serial_le`.
-/
import HttpExchange.Session
import HttpExchange.Proofs.Delivery
import HttpExchange.Proofs.Run

namespace HttpExchange

/-! ### The queue -/

namespace Intake

variable {α : Type} {i j k : Intake α}

/-- The receiver of the dispatcher's queue is gone. -/
def Closed (i : Intake α) : Prop := ∀ c, i.channels[0]? = some c → c.isOpen = false

/-- Work was put behind the dispatcher's queue, unless its receiver is gone. -/
structure Grows (i j : Intake α) : Prop where
  pending : ∃ more, j.pending 0 = i.pending 0 ++ more
  closed : i.Closed → j.Closed ∧ j.pending 0 = i.pending 0

theorem Grows.refl (i : Intake α) : i.Grows i := ⟨⟨[], by simp⟩, fun h => ⟨h, rfl⟩⟩

theorem Grows.trans (hij : i.Grows j) (hjk : j.Grows k) : i.Grows k := by
  obtain ⟨xs, hx⟩ := hij.pending
  obtain ⟨ys, hy⟩ := hjk.pending
  refine ⟨⟨xs ++ ys, by rw [hy, hx, List.append_assoc]⟩, fun h => ?_⟩
  obtain ⟨hj, hpj⟩ := hij.closed h
  obtain ⟨hk, hpk⟩ := hjk.closed hj
  exact ⟨hk, hpk.trans hpj⟩

/-- What becomes of the dispatcher's queue depends on the channels only. -/
theorem Grows.of_channels (h : i.channels = j.channels) : i.Grows j := by
  have hp : j.pending 0 = i.pending 0 := by
    unfold Intake.pending
    rw [h]
  refine ⟨⟨[], by rw [hp, List.append_nil]⟩, fun hc => ⟨?_, hp⟩⟩
  unfold Closed at hc ⊢
  rwa [← h]

theorem grows_send {n : Nat} {a : α} (h : i.send n a = some j) : i.Grows j := by
  unfold send at h
  cases hc : i.channels[n]? with
  | none => simp [hc] at h
  | some c =>
    simp only [hc, Option.bind_eq_bind, Option.bind_some, Channel.send] at h
    split at h
    · rename_i ho
      simp only [Option.bind_some, Option.pure_def, Option.some.injEq] at h
      subst h
      by_cases hn : n = 0
      · subst hn
        have hlt : 0 < i.channels.length := (List.getElem?_eq_some_iff.mp hc).1
        refine ⟨⟨[a], ?_⟩, fun hclosed => ?_⟩
        · simp only [Intake.pending, hc, List.getElem?_set_self hlt]
        · rw [hclosed c hc] at ho
          cases ho
      · have hsame : (i.channels.set n { c with pending := c.pending ++ [a] })[0]? =
            i.channels[0]? := List.getElem?_set_ne hn
        refine ⟨⟨[], ?_⟩, fun hclosed => ⟨?_, ?_⟩⟩
        · simp only [Intake.pending, List.append_nil]
          rw [hsame]
        · intro d hd
          exact hclosed d (hsame ▸ hd)
        · simp only [Intake.pending]
          rw [hsame]
    · simp at h

theorem grows_sendAll (i : Intake α) (n : Nat) (as : List α) : i.Grows (i.sendAll n as).1 := by
  induction as generalizing i with
  | nil => exact .refl i
  | cons a as ih =>
    unfold sendAll
    split
    · rename_i j hj
      exact (grows_send hj).trans (ih j)
    · exact .refl i

theorem grows_post (i : Intake α) (a : α) : i.Grows (i.post a).1 := by
  unfold post
  split
  · exact .refl i
  · split
    · split
      · rename_i j hj
        exact grows_send hj
      · exact .refl i
    · exact .of_channels rfl

/-- The first piece of work is taken off the front. -/
theorem next?_eq_some {a : α} (h : i.next? 0 = some (a, j)) :
    i.pending 0 = a :: j.pending 0 ∧ (i.Closed → j.Closed) := by
  refine ⟨(pending_next? h).1 0, fun hclosed d hd => ?_⟩
  obtain ⟨c, rest, hc, -, rfl⟩ := of_next? h
  have hlt : 0 < i.channels.length := (List.getElem?_eq_some_iff.mp hc).1
  rw [List.getElem?_set_self hlt, Option.some.injEq] at hd
  rw [← hd]
  exact hclosed c hc

theorem closed_closeChannel (i : Intake α) :
    (i.closeChannel 0).Closed ∧ (i.closeChannel 0).pending 0 = [] := by
  have hget : (i.closeChannel 0).channels[0]? = i.channels[0]?.map Channel.close := by
    unfold closeChannel
    simp
  unfold Closed Intake.pending
  rw [hget]
  cases i.channels[0]? with
  | none => exact ⟨fun c hc => (by cases hc), rfl⟩
  | some c =>
    refine ⟨fun d hd => ?_, rfl⟩
    rw [Option.map_some, Option.some.injEq] at hd
    rw [← hd]
    rfl

end Intake

/-! ### Turns -/

namespace Host

variable {u v w : Host}

/-- The client went through a run. -/
structure Advances (v w : Host) : Prop where
  client : ∃ ms, w.client = v.client.after ms
  onThread : w.onThread = v.onThread

/-- The client went through a run, and more work was put behind the queue. -/
structure Leads (v w : Host) : Prop extends Advances v w where
  intake : v.intake.Grows w.intake

theorem Advances.trans (huv : Advances u v) (hvw : Advances v w) : Advances u w := by
  obtain ⟨xs, hx⟩ := huv.client
  obtain ⟨ys, hy⟩ := hvw.client
  refine ⟨⟨xs ++ ys, ?_⟩, hvw.onThread.trans huv.onThread⟩
  rw [hy, hx, Client.after_append]

/-- What leaves the client alone. -/
theorem Advances.of_client (hc : w.client = v.client) (ht : w.onThread = v.onThread) :
    Advances v w := ⟨⟨[], hc⟩, ht⟩

theorem Advances.sound (h : Advances v w) (hv : v.client.Sound) : w.client.Sound := by
  obtain ⟨ms, hms⟩ := h.client
  rw [hms]
  exact Client.sound_after hv ms

theorem Advances.nextSerial (h : Advances v w) (hv : v.client.Sound) :
    v.client.nextSerial ≤ w.client.nextSerial := by
  obtain ⟨ms, hms⟩ := h.client
  rw [hms]
  exact Client.nextSerial_after hv ms

/-- What only puts work behind the queue. -/
theorem Leads.of_grows {i : Intake Task} (h : v.intake.Grows i) (hc : w.client = v.client)
    (ht : w.onThread = v.onThread) (hi : w.intake = i) : Leads v w :=
  ⟨.of_client hc ht, hi ▸ h⟩

theorem Leads.refl (w : Host) : Leads w w := .of_grows (.refl _) rfl rfl rfl

theorem Leads.trans (huv : Leads u v) (hvw : Leads v w) : Leads u w :=
  ⟨huv.toAdvances.trans hvw.toAdvances, huv.intake.trans hvw.intake⟩

theorem leads_enqueue (w : Host) (t : Task) : Leads w (w.enqueue t).1 := by
  unfold enqueue
  split
  · rename_i i hi
    exact .of_grows (Intake.grows_send hi) rfl rfl rfl
  · exact .refl w

theorem leads_post (w : Host) (t : Task) : Leads w (w.post t).1 :=
  .of_grows (Intake.grows_post w.intake t) rfl rfl rfl

theorem leads_startStream (w : Host) (h : Handle) (app : Application) :
    Leads w (w.startStream h app).1 := by
  unfold startStream
  split
  · exact .refl w
  · rename_i live _
    have hp := leads_post { w with live := live } (.start h app)
    have hw : Leads w (({ w with live := live } : Host).post (.start h app)).1 :=
      ⟨⟨hp.client, hp.onThread⟩, hp.intake⟩
    split
    · rename_i v hv
      rw [hv] at hw
      exact hw
    · rename_i v e hv
      rw [hv] at hw
      exact ⟨⟨hw.client, hw.onThread⟩, hw.intake⟩

theorem leads_resume (w : Host) (h : Handle) (credit : Nat) : Leads w (w.resume h credit).1 := by
  unfold resume
  split
  · exact .refl w
  · split
    · exact .refl w
    · exact leads_post w _

theorem leads_call (w : Host) (c : Call) : Leads w (w.call c).1 := by
  unfold call
  cases c with
  | enqueue t => exact leads_enqueue w t
  | init => dsimp only; split <;> exact .of_grows (.refl _) rfl rfl rfl
  | start h app =>
    dsimp only
    split
    · exact leads_startStream w h app
    · exact .refl w
  | resume h credit =>
    dsimp only
    split
    · exact leads_resume w h credit
    · exact .refl w
  | setNetwork n => dsimp only; split <;> exact .of_grows (.refl _) rfl rfl rfl
  | network => dsimp only; split <;> exact .refl w
  | post t =>
    dsimp only
    split
    · exact leads_post w t
    · exact .refl w

theorem leads_foldl {α : Type} {f : Host → α → Host} (hf : ∀ w a, Leads w (f w a)) (as : List α)
    (w : Host) : Leads w (as.foldl f w) := by
  induction as generalizing w with
  | nil => exact .refl w
  | cons a as ih => exact (hf w a).trans (ih (f w a))

theorem leads_tell (w : Host) (id : StreamId) (e : Event) : Leads w (w.tell id e) := by
  unfold tell
  dsimp only
  split
  · exact .of_grows (.refl _) rfl rfl rfl
  · refine .trans (v := { w with notes := w.notes ++ [Note.told id.handle e] })
      (.of_grows (.refl _) rfl rfl rfl) (leads_foldl (fun v a => ?_) _ _)
    have hv := leads_call v a.2
    exact ⟨⟨hv.client, hv.onThread⟩, hv.intake⟩

theorem leads_enqueueParts (w : Host) (h : Handle) (parts : List ResponsePart) :
    Leads w (w.enqueueParts h parts) :=
  .of_grows (Intake.grows_sendAll w.intake 0 _) rfl rfl rfl

theorem leads_emit (w : Host) (o : Output) : Leads w (w.emit o) := by
  cases o with
  | opened id => exact .of_grows (.refl _) rfl rfl rfl
  | told id e => exact leads_tell w id e
  | called id c =>
    have hw := leads_enqueueParts { w with
      pipeline := (w.pipeline.call id c).1
      traces := w.traces ++ [(id.handle, Trace.called c)] } id.handle (w.pipeline.call id c).2
    exact ⟨⟨hw.client, hw.onThread⟩, hw.intake⟩
  | released h => exact .of_grows (.refl _) rfl rfl rfl

/-- An operation is one move of the client. -/
theorem leads_operate {op : Operation} (h : v.operate op = .ok w) : Leads v w := by
  unfold operate at h
  split at h
  · cases h
  · split at h
    · cases h
    · rename_i c outs hstep
      simp only [Except.ok.injEq] at h
      have hmove : Leads v { v with client := c } := by
        refine ⟨⟨⟨[⟨op, v.network⟩], ?_⟩, rfl⟩, .refl _⟩
        simp only [Client.after, Client.advance, hstep]
      rw [← h]
      exact hmove.trans (leads_foldl leads_emit outs _)

theorem leads_run {t : Task} {a : Answer} (h : v.run t = .ok (w, a)) : Leads v w := by
  have hop {u : Host} {op : Operation} (hu : (u.operate op).map (fun x => (x, Answer.nothing)) =
      .ok (w, a)) : Leads u w := by
    cases ho : u.operate op with
    | error f =>
      rw [ho] at hu
      cases hu
    | ok x =>
      rw [ho] at hu
      cases hu
      exact leads_operate ho
  cases t with
  | start h app =>
    have hw := hop h
    exact ⟨⟨hw.client, hw.onThread⟩, hw.intake⟩
  | operate op => exact hop h
  | has h => cases h; exact .refl v
  | claim k =>
    unfold run at h
    dsimp only at h
    split at h <;> cases h <;> exact .of_grows (.refl _) rfl rfl rfl
  | release k =>
    unfold run at h
    dsimp only at h
    split at h <;> cases h <;> exact .of_grows (.refl _) rfl rfl rfl
  | crash => cases h
  | terminate | hold => cases h; exact .refl v

theorem leads_turn {t : Task} (h : v.turn t = .ok w) : Leads v w := by
  unfold turn at h
  cases hr : v.run t with
  | error f =>
    rw [hr] at h
    cases h
  | ok r =>
    rw [hr] at h
    exact (leads_run hr).trans (leads_operate h)

end Host

/-! ### Sessions -/

namespace Session

/-- The host after some steps. -/
def after (w : Host) : List Step → Host
  | [] => w
  | step :: steps => after (perform w step).1 steps

/-- A turn of a session: the tasks taken off the queue before, the host once the
next task is taken off, and that task. -/
structure Turn where
  earlier : List Task
  host : Host
  task : Task

/-- The host after a turn; a fault leaves it as it was. -/
def Turn.result (t : Turn) : Host :=
  match t.host.turn t.task with
  | .ok w => w
  | .error _ => t.host

/-- Up to a number of turns. -/
def turnsFrom (earlier : List Task) : Nat → Host → List Turn
  | 0, _ => []
  | n + 1, w =>
    match w.intake.next? 0 with
    | none => []
    | some (task, intake) =>
      let turn : Turn := ⟨earlier, { w with intake := intake }, task⟩
      turn :: turnsFrom (earlier ++ [task]) n turn.result

/-- The turns of a step. -/
def Step.turns (earlier : List Task) (w : Host) : Step → List Turn
  | .run n => turnsFrom earlier n w
  | _ => []

/-- The turns of a session, in order. -/
def turns (earlier : List Task) (w : Host) : List Step → List Turn
  | [] => []
  | step :: steps =>
    step.turns earlier w ++
      turns (earlier ++ (step.turns earlier w).map Turn.task) (perform w step).1 steps

/-- A session, turn by turn. Between turns the client goes through a run, and the
queue grows or loses its receiver. -/
inductive Goes : List Task → Host → List Turn → List Task → Host → Prop
  | refl (r : List Task) (w : Host) : Goes r w [] r w
  | turn {r r' : List Task} {w w' : Host} {ts : List Turn} {task : Task} {i : Intake Task} :
      w.intake.next? 0 = some (task, i) →
      Goes (r ++ [task]) (Turn.result ⟨r, { w with intake := i }, task⟩) ts r' w' →
      Goes r w (⟨r, { w with intake := i }, task⟩ :: ts) r' w'
  | between {r r' : List Task} {v w w' : Host} {ts : List Turn} : w.Advances v →
      w.intake.Grows v.intake ∨ v.intake.Closed ∧ v.intake.pending 0 = [] →
      Goes r v ts r' w' → Goes r w ts r' w'

variable {r r' r'' : List Task} {w w' w'' : Host} {ts us : List Turn}

theorem Goes.append (h : Goes r w ts r' w') (h' : Goes r' w' us r'' w'') :
    Goes r w (ts ++ us) r'' w'' := by
  induction h with
  | refl _ _ => exact h'
  | turn hnext _ ih => exact .turn hnext (ih h')
  | between hadv hq _ ih => exact .between hadv hq (ih h')

theorem Goes.of_leads (r : List Task) (h : w.Leads w') : Goes r w [] r w' :=
  .between h.toAdvances (.inl h.intake) (.refl r w')

theorem goes_turnsFrom (r : List Task) (n : Nat) (w : Host) :
    Goes r w (turnsFrom r n w) (r ++ (turnsFrom r n w).map Turn.task) (runTurns n w).1 := by
  induction n generalizing r w with
  | zero =>
    rw [turnsFrom, List.map_nil, List.append_nil]
    exact .refl r w
  | succ n ih =>
    unfold turnsFrom runTurns
    cases hnext : w.intake.next? 0 with
    | none =>
      rw [List.map_nil, List.append_nil]
      exact .refl r w
    | some p =>
      obtain ⟨task, i⟩ := p
      have hrest := ih (r ++ [task]) (Turn.result ⟨r, { w with intake := i }, task⟩)
      rw [List.append_assoc, List.singleton_append] at hrest
      dsimp only
      rw [List.map_cons]
      refine .turn hnext ?_
      -- `runTurns` looks at how the turn ended as well, to report it
      unfold Turn.result at hrest ⊢
      split at hrest <;> rename_i hturn <;> rw [hturn] <;> exact hrest

theorem leads_decode {h : Handle} {c : RequestCall} (hd : decode w h c = some w') :
    w.Leads w' := by
  unfold decode at hd
  simp only [Option.bind_eq_bind, Option.bind_eq_some_iff, Option.pure_def, Option.some.injEq] at hd
  obtain ⟨id, -, -, -, rfl⟩ := hd
  have hp := Host.leads_enqueueParts { w with pipeline := (w.pipeline.call id c).1 } h
    (w.pipeline.call id c).2
  exact ⟨⟨hp.client, hp.onThread⟩, hp.intake⟩

/-- All steps but two only put work behind the queue. -/
theorem leads_perform (w : Host) {step : Step} (hrun : ∀ n, step ≠ .run n)
    (hclose : step ≠ .closeQueue) : w.Leads (perform w step).1 := by
  unfold perform
  cases step with
  | run n => exact absurd rfl (hrun n)
  | closeQueue => exact absurd rfl hclose
  | direct t =>
    dsimp only
    split
    · rename_i hr
      exact Host.leads_run hr
    · exact .refl w
  | encode h part =>
    dsimp only
    split
    · rename_i hs
      unfold Host.encode at hs
      split at hs
      · have hq := Host.leads_enqueue w (.operate (part.operation h))
        rwa [Option.some.inj hs] at hq
      · cases hs
    · exact .refl w
  | decode h c =>
    dsimp only
    split
    · rename_i hd
      exact leads_decode hd
    · exact .refl w
  | post t => exact Host.leads_enqueue w t
  | network n => exact .of_grows (.refl _) rfl rfl rfl

theorem goes_step (r : List Task) (w : Host) (step : Step) :
    Goes r w (step.turns r w) (r ++ (step.turns r w).map Turn.task) (perform w step).1 := by
  by_cases hrun : ∃ n, step = .run n
  · obtain ⟨n, rfl⟩ := hrun
    exact goes_turnsFrom r n w
  · have hnone : step.turns r w = [] := by
      cases step with
      | run n => exact absurd ⟨n, rfl⟩ hrun
      | direct _ | encode _ _ | decode _ _ | post _ | network _ | closeQueue => rfl
    rw [hnone, List.map_nil, List.append_nil]
    by_cases hclose : step = .closeQueue
    · subst hclose
      exact .between (v := { w with intake := w.intake.closeChannel 0 }) (.of_client rfl rfl)
        (.inr (Intake.closed_closeChannel w.intake)) (.refl r _)
    · exact .of_leads r (leads_perform w (fun n h => hrun ⟨n, h⟩) hclose)

/-- A session goes through its turns. -/
theorem goes_turns (r : List Task) (w : Host) (steps : List Step) :
    ∃ r', Goes r w (turns r w steps) r' (after w steps) := by
  induction steps generalizing r w with
  | nil => exact ⟨r, .refl r w⟩
  | cons step steps ih =>
    obtain ⟨r', hr'⟩ := ih (r ++ (step.turns r w).map Turn.task) (perform w step).1
    exact ⟨r', (goes_step r w step).append hr'⟩

theorem leads_result (t : Turn) : t.host.Leads t.result := by
  unfold Turn.result
  split
  · rename_i hturn
    exact Host.leads_turn hturn
  · exact .refl t.host

/-- What every turn and everything between turns preserves holds at the start of
every turn. -/
theorem Goes.invariant {I : List Task → Host → Prop}
    (hturn : ∀ {r w task i}, w.intake.next? 0 = some (task, i) → I r w →
      I (r ++ [task]) (Turn.result ⟨r, { w with intake := i }, task⟩))
    (hbetween : ∀ {r w v}, w.Advances v →
      w.intake.Grows v.intake ∨ v.intake.Closed ∧ v.intake.pending 0 = [] → I r w → I r v)
    (h : Goes r w ts r' w') (hw : I r w) :
    I r' w' ∧ ∀ t ∈ ts, ∃ v i, v.intake.next? 0 = some (t.task, i) ∧
      t.host = { v with intake := i } ∧ I t.earlier v := by
  induction h with
  | refl _ _ => exact ⟨hw, by simp⟩
  | @turn r _ w _ ts task i hnext _ ih =>
    obtain ⟨hlast, hall⟩ := ih (hturn hnext hw)
    refine ⟨hlast, fun t ht => ?_⟩
    rcases List.mem_cons.mp ht with rfl | ht
    · exact ⟨w, i, hnext, rfl, hw⟩
    · exact hall t ht
  | between hadv hq _ ih => exact ih (hbetween hadv hq hw)

/-- A client with a dispatcher on its own thread. -/
structure Ready (w : Host) : Prop where
  sound : w.client.Sound
  onThread : w.onThread = true

theorem ready_start (config : Config) (answers : Bool) (draws : Draws) :
    Ready (start config answers true draws) :=
  ⟨Client.sound_ofConfig config draws, rfl⟩

theorem Ready.advances {v : Host} (hw : Ready w) (h : w.Advances v) : Ready v :=
  ⟨h.sound hw.sound, h.onThread.trans hw.onThread⟩

/-- Taking a task off the queue and running it. -/
theorem advances_result (i : Intake Task) (task : Task) :
    w.Advances (Turn.result ⟨r, { w with intake := i }, task⟩) := by
  have hl := (leads_result ⟨r, { w with intake := i }, task⟩).toAdvances
  exact ⟨hl.client, hl.onThread⟩

theorem Goes.ready (h : Goes r w ts r' w') (hw : Ready w) :
    Ready w' ∧ ∀ t ∈ ts, Ready t.host := by
  obtain ⟨hlast, hall⟩ := h.invariant (I := fun _ w => Ready w)
    (fun _ hw => hw.advances (advances_result _ _)) (fun hadv _ hw => hw.advances hadv) hw
  refine ⟨hlast, fun t ht => ?_⟩
  obtain ⟨v, i, -, hv, hready⟩ := hall t ht
  rw [hv]
  exact ⟨hready.sound, hready.onThread⟩

/-- Later turns come with more tasks run and no fewer streams started. -/
theorem Goes.at_least (h : Goes r w ts r' w') (hw : Ready w) {t : Turn} (ht : t ∈ ts) :
    r.length ≤ t.earlier.length ∧ w.client.nextSerial ≤ t.host.client.nextSerial := by
  obtain ⟨-, hall⟩ := h.invariant
    (I := fun s v => Ready v ∧ r.length ≤ s.length ∧ w.client.nextSerial ≤ v.client.nextSerial)
    (fun {s v task i} _ hv => by
      have hadv : v.Advances (Turn.result ⟨s, { v with intake := i }, task⟩) := advances_result i task
      have hserial := hadv.nextSerial hv.1.sound
      rw [List.length_append]
      exact ⟨hv.1.advances hadv, by omega, by omega⟩)
    (fun {s v u} hadv _ hv => by
      have hserial := hadv.nextSerial hv.1.sound
      exact ⟨hv.1.advances hadv, hv.2.1, by omega⟩)
    ⟨hw, Nat.le_refl _, Nat.le_refl _⟩
  obtain ⟨v, i, -, hv, -, hlen, hserial⟩ := hall t ht
  rw [hv]
  exact ⟨hlen, hserial⟩

/-- The client of a later turn has started no fewer streams. -/
theorem Goes.serial_le (h : Goes r w ts r' w') (hw : Ready w) {a b : Turn} (ha : a ∈ ts)
    (hb : b ∈ ts) (hab : a.earlier.length < b.earlier.length) :
    a.host.client.nextSerial ≤ b.host.client.nextSerial := by
  induction h with
  | refl _ _ => cases ha
  | @turn r _ w _ ts task i hnext hrest ih =>
    have hadv : w.Advances (Turn.result ⟨r, { w with intake := i }, task⟩) := advances_result i task
    have hready := hw.advances hadv
    rcases List.mem_cons.mp ha with rfl | ha
    · rcases List.mem_cons.mp hb with rfl | hb
      · exact Nat.le_refl _
      · exact Nat.le_trans (hadv.nextSerial hw.sound) (hrest.at_least hready hb).2
    · rcases List.mem_cons.mp hb with rfl | hb
      · have hle := (hrest.at_least hready ha).1
        rw [List.length_append] at hle
        dsimp only at hab
        omega
      · exact ih hready ha hb
  | between hadv _ _ ih => exact ih (hw.advances hadv) ha hb

/-- The tasks that ran and those in the queue go on from a list of tasks, unless
the queue has lost its receiver. -/
def Keeps (tasks r : List Task) (w : Host) : Prop :=
  w.intake.Closed ∧ w.intake.pending 0 = [] ∨ tasks <+: r ++ w.intake.pending 0

theorem Keeps.grows {tasks : List Task} {v : Host} (hw : Keeps tasks r w)
    (h : w.intake.Grows v.intake) : Keeps tasks r v := by
  rcases hw with ⟨hclosed, hempty⟩ | hprefix
  · obtain ⟨hclosed', hsame⟩ := h.closed hclosed
    exact .inl ⟨hclosed', hsame.trans hempty⟩
  · obtain ⟨more, hmore⟩ := h.pending
    right
    rw [hmore, ← List.append_assoc]
    exact hprefix.trans (List.prefix_append _ _)

theorem Keeps.next {tasks : List Task} {task : Task} {i : Intake Task} (hw : Keeps tasks r w)
    (hnext : w.intake.next? 0 = some (task, i)) : tasks <+: r ++ task :: i.pending 0 := by
  have hp := (Intake.next?_eq_some hnext).1
  rcases hw with ⟨-, hempty⟩ | hprefix
  · rw [hempty] at hp
    cases hp
  · rwa [hp] at hprefix

/-- Tasks leave the queue in the order in which they were put in. -/
theorem Goes.in_order {tasks : List Task} (h : Goes r w ts r' w') (hw : Keeps tasks r w)
    {t : Turn} (ht : t ∈ ts) : tasks <+: t.earlier ++ t.task :: t.host.intake.pending 0 := by
  obtain ⟨-, hall⟩ := h.invariant (I := Keeps tasks)
    (fun {s v task i} hnext hv => by
      have hstep := hv.next hnext
      rw [List.append_cons] at hstep
      have hkept : Keeps tasks (s ++ [task]) { v with intake := i } := .inr hstep
      exact hkept.grows (leads_result ⟨s, { v with intake := i }, task⟩).intake)
    (fun _ hq hv => hq.elim hv.grows .inl)
    hw
  obtain ⟨v, i, hnext, hv, hkept⟩ := hall t ht
  rw [hv]
  exact hkept.next hnext

/-- The turn that comes after as many turns as there were tasks before a task. -/
theorem Goes.task_at {xs : List Task} {task : Task} (h : Goes r w ts r' w')
    (hw : Keeps (xs ++ [task]) r w) {t : Turn} (ht : t ∈ ts)
    (hlen : t.earlier.length = xs.length) : t.earlier = xs ∧ t.task = task := by
  have hlength : (xs ++ [task]).length = (t.earlier ++ [t.task]).length := by
    rw [List.length_append, List.length_append, hlen]
    rfl
  have horder := h.in_order hw ht
  rw [List.append_cons t.earlier] at horder
  have hprefix : xs ++ [task] <+: t.earlier ++ [t.task] :=
    List.prefix_of_prefix_length_le horder (List.prefix_append _ _) (Nat.le_of_eq hlength)
  have hsame := hprefix.eq_of_length hlength
  obtain ⟨hxs, htask⟩ := List.append_inj hsame hlen.symm
  exact ⟨hxs.symm, (List.singleton_inj.mp htask).symm⟩

end Session

end HttpExchange
