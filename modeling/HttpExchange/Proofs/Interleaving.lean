/-
# Threads around an engine

Any number of threads call an engine while its dispatcher works, and each may be
interrupted between any two of its accesses to what they share: the intake, the
dispatcher's queue and the set of live handles. A call is taken stage by stage
(`Stage`), a task in flight is a list of chores (`Chore`), termination is two
steps, and the dispatcher thread first makes its channel, then installs it, then
goes from task to task. A scene (`Scene`) is an engine with the calls and chores
that are under way, and every list of actions is an order in which threads may
get their turns. Between two tasks the dispatcher looks at its queue, and only if
that is empty at the signal; these are two actions, and others may get in between.

Looks and chores that nobody interrupts are a turn of the engine
(`Scene.turn_of_look`), and a call that nobody interrupts is the call of the
host (`Scene.call_at_once`).

Key definitions: `Stage`, `Host.proceed`, `Deed`, `Chore`, `Scene`,
`Scene.step`, `Scene.after`, `Scene.deeds`.
Key theorems: `Host.proceeds`, `Scene.step_of_stage`, `Scene.look_cases`,
`Scene.listen_cases`, `Scene.deeds_split`, `Scene.turn_of_look`.
-/
import HttpExchange.Broadcast
import HttpExchange.Engine
import HttpExchange.Proofs.Incarnation

namespace HttpExchange

/-- How far a call has come. A start takes three steps, every other call one. -/
inductive Stage
  | begun (c : Call)
  /-- The handle is claimed, and the task is yet to be handed in. -/
  | claimed (h : Handle) (app : Application)
  /-- The task was refused, and the handle is yet to be given back. -/
  | refused (h : Handle) (e : CallError)
  | done (a : Answer)

/-- What happens to tasks, to starts and to the dispatcher. -/
inductive Deed
  /-- A task was handed to the engine, which took or refused it. -/
  | posted (t : Task) (s : Status)
  /-- A task was put straight into the dispatcher's queue, from within the task in
  flight or by another thread. -/
  | sent (within : Bool) (t : Task) (s : Status)
  /-- A call to start a stream came back. -/
  | answered (h : Handle) (s : Status)
  /-- The dispatcher took a task off its queue and ran it. -/
  | ran (t : Task)
  /-- The task took the dispatcher down. -/
  | faulted (f : Fault)
  /-- The first step of termination. -/
  | refused
  /-- The dispatcher looked at its queue and found it empty. -/
  | foundEmpty
  /-- The dispatcher left its loop, and its queue is gone. -/
  | left

/-- The task that a call other than a start hands to the engine. -/
def Call.task? (explicit : Bool) : Call → Option Task
  | .post t => some t
  | .resume h credit => if explicit && credit != 0 then some (.operate (.resume h credit)) else none
  | _ => none

/-- Work that is refused leaves the intake as it was. -/
theorem Intake.post_refused {α : Type} {i : Intake α} {a : α} {e : CallError}
    (h : (i.post a).2 = .error e) : i.post a = (i, .error .terminated) := by
  unfold post at h ⊢
  cases hi : i.terminated with
  | true => rfl
  | false =>
    simp only [hi, Bool.false_eq_true, if_false] at h ⊢
    cases ht : i.target with
    | none => simp [ht] at h
    | some t =>
      cases hs : i.send t.channel a with
      | none => simp [hs]
      | some j => simp [ht, hs] at h

namespace Host

/-- The next step of a call. -/
def proceed (w : Host) : Stage → Host × Stage × List Deed
  | .begun (.start h app) =>
    if w.attached then
      match w.live.claim h with
      | none =>
        (w, .done (.status (.error (.duplicateStream h))),
          [.answered h (.error (.duplicateStream h))])
      | some live => ({ w with live := live }, .claimed h app, [])
    else (w, .done .gone, [])
  | .begun (.enqueue t) =>
    ((w.enqueue t).1, .done (.status (w.enqueue t).2), [.sent true t (w.enqueue t).2])
  | .begun c =>
    ((w.call c).1, .done (w.call c).2,
      if w.attached then (c.task? w.client.explicit).toList.map fun t => .posted t (w.post t).2
      else [])
  | .claimed h app =>
    match w.post (.start h app) with
    | (w, .ok ()) =>
      (w, .done (.status (.ok ())), [.posted (.start h app) (.ok ()), .answered h (.ok ())])
    | (w, .error e) => (w, .refused h e, [.posted (.start h app) (.error e)])
  | .refused h e =>
    ({ w with live := w.live.erase h }, .done (.status (.error e)), [.answered h (.error e)])
  | .done a => (w, .done a, [])

/-- What the next step of a call can do. -/
inductive Proceeds (w : Host) : Stage → Host → Stage → List Deed → Prop
  | done (a : Answer) : Proceeds w (.done a) w (.done a) []
  | gone (c : Call) : w.attached = false → Proceeds w (.begun c) w (.done .gone) []
  | duplicate {h : Handle} {app : Application} : h ∈ w.live →
      Proceeds w (.begun (.start h app)) w (.done (.status (.error (.duplicateStream h))))
        [.answered h (.error (.duplicateStream h))]
  | claimed {h : Handle} {app : Application} {live : LiveSet} : w.live.claim h = some live →
      Proceeds w (.begun (.start h app)) { w with live := live } (.claimed h app) []
  /-- A call that is refused for its arguments, or is about the network or handles. -/
  | quiet {c : Call} {v : Host} {a : Answer} : (∀ h app, c ≠ .start h app) →
      v = { w with network := v.network, nextHandle := v.nextHandle } →
      Proceeds w (.begun c) v (.done a) []
  | posted {c : Call} {t : Task} : c.task? w.client.explicit = some t →
      Proceeds w (.begun c) (w.post t).1 (.done (.status (w.post t).2)) [.posted t (w.post t).2]
  | enqueued (t : Task) : Proceeds w (.begun (.enqueue t)) (w.enqueue t).1
      (.done (.status (w.enqueue t).2)) [.sent true t (w.enqueue t).2]
  | accepted {h : Handle} {app : Application} : (w.post (.start h app)).2 = .ok () →
      Proceeds w (.claimed h app) (w.post (.start h app)).1 (.done (.status (.ok ())))
        [.posted (.start h app) (.ok ()), .answered h (.ok ())]
  | turnedDown {h : Handle} {app : Application} :
      w.post (.start h app) = (w, .error .terminated) →
      Proceeds w (.claimed h app) w (.refused h .terminated)
        [.posted (.start h app) (.error .terminated)]
  | givenBack (h : Handle) (e : CallError) : Proceeds w (.refused h e)
      { w with live := w.live.erase h } (.done (.status (.error e))) [.answered h (.error e)]

/-- A task that is refused leaves the host as it was. -/
theorem post_refused {w : Host} {t : Task} {e : CallError} (h : (w.post t).2 = .error e) :
    w.post t = (w, .error .terminated) := by
  have hi : w.intake.post t = (w.intake, .error .terminated) := Intake.post_refused h
  unfold post
  rw [hi]

theorem proceeds_begun (w : Host) (c : Call) :
    Proceeds w (.begun c) (w.proceed (.begun c)).1 (w.proceed (.begun c)).2.1
      (w.proceed (.begun c)).2.2 := by
  cases ha : w.attached with
  | false =>
    have hn : ¬ w.attached = true := by simp [ha]
    cases c with
    | enqueue t => exact .enqueued t
    | init | start _ _ | resume _ _ | setNetwork _ | network | post _ =>
      simp only [proceed, call, if_neg hn]
      exact .gone _ ha
  | true =>
    cases c with
    | enqueue t => exact .enqueued t
    | start h app =>
      simp only [proceed, if_pos ha]
      split
      · rename_i hl
        exact .duplicate (LiveSet.claim_eq_none_iff.mp hl)
      · rename_i hl
        exact .claimed hl
    | init | setNetwork _ | network =>
      simp only [proceed, call, if_pos ha]
      exact .quiet (fun _ _ => by simp) rfl
    | post t =>
      simp only [proceed, call, if_pos ha]
      exact .posted rfl
    | resume h credit =>
      simp only [proceed, call, if_pos ha, resume]
      by_cases hx : w.client.explicit = true
      · by_cases hc : credit = 0
        · simp only [Call.task?, hx, hc]
          exact .quiet (fun _ _ => by simp) rfl
        · have ht : (Call.resume h credit).task? w.client.explicit =
              some (.operate (.resume h credit)) := by simp [Call.task?, hx, hc]
          rw [ht]
          simpa [hx, hc] using Proceeds.posted ht
      · simp only [Call.task?, hx]
        exact .quiet (fun _ _ => by simp) rfl

/-- Every step of a call does one of the things listed. -/
theorem proceeds (w : Host) (p : Stage) :
    Proceeds w p (w.proceed p).1 (w.proceed p).2.1 (w.proceed p).2.2 := by
  cases p with
  | begun c => exact proceeds_begun w c
  | claimed h app =>
    cases hp : (w.post (.start h app)).2 with
    | ok _ =>
      have hpair : w.post (.start h app) = ((w.post (.start h app)).1, .ok ()) := Prod.ext rfl hp
      have hgo : w.proceed (.claimed h app) = ((w.post (.start h app)).1,
          .done (.status (.ok ())), [.posted (.start h app) (.ok ()), .answered h (.ok ())]) := by
        simp only [proceed]
        rw [hpair]
      rw [hgo]
      exact .accepted hp
    | error e =>
      have hpair := post_refused hp
      simp only [proceed, hpair]
      exact .turnedDown hpair
  | refused h e => exact .givenBack h e
  | done a => exact .done a

/-- What is put straight into the queue leaves the rest of the host alone. -/
theorem enqueue_eq (w : Host) (t : Task) :
    (w.enqueue t).1 = { w with intake := (w.enqueue t).1.intake } := by
  unfold enqueue
  split <;> rfl

/-- A call reaches the intake, the live handles, the network and the next handle only. -/
theorem Proceeds.frame {v w : Host} {q q' : Stage} {ds : List Deed} (h : w.Proceeds q v q' ds) :
    v = { w with
      intake := v.intake
      live := v.live
      network := v.network
      nextHandle := v.nextHandle } := by
  cases h with
  | done | gone | duplicate _ | claimed _ | turnedDown _ | givenBack | posted _ | accepted _ => rfl
  | quiet _ hv => rw [hv]
  | enqueued t => rw [enqueue_eq]

end Host

/-- What is left to do of the task in flight. -/
inductive Chore
  /-- An output of the client is to take effect. -/
  | emit (o : Output)
  /-- The application of a stream has a call under way. -/
  | call (h : Handle) (label : String) (p : Stage)
  /-- The pipeline has a part of a response to send. -/
  | send (t : Task)
  /-- The retired streams are to be destroyed. -/
  | sweep
  /-- The engine is to be terminated from within. -/
  | terminate
  /-- It refuses calls, and the dispatcher is yet to be told. -/
  | signal

namespace Host

/-- Lets an output of the client take effect, as far as that is one step; what
applications and the pipeline do in return is left as chores. -/
def unpack (w : Host) : Output → Host × List Chore
  | .told id e =>
    ({ w with notes := w.notes ++ [Note.told id.handle e] },
      match w.applications.find? id.serial with
      | none => []
      | some app => (app.answersTo e.kind).map fun a => .call id.handle a.1 (.begun a.2))
  | .called id c =>
    ({ w with
        pipeline := (w.pipeline.call id c).1
        traces := w.traces ++ [(id.handle, Trace.called c)] },
      (w.pipeline.call id c).2.map fun p => .send (.operate (p.operation id.handle)))
  | o => (w.emit o, [])

/-- Has the client do an operation, and leaves its outputs as chores. -/
def launch (w : Host) (op : Operation) : Except Fault (Host × List Chore) :=
  if !w.onThread && op != .sweep then .error .offThread
  else
    match w.client.step w.network op with
    | .error f => .error f
    | .ok (client, outputs) => .ok ({ w with client := client }, outputs.map .emit)

/-- Begins a task. -/
def begin (w : Host) : Task → Except Fault (Host × List Chore)
  | .start h app =>
    { w with applications := w.applications.insert w.client.nextSerial app }.launch (.start h)
  | .operate op => w.launch op
  | t => (w.run t).map fun r => (r.1, [])

end Host

/-- Notes down what a call of an application answered, when it is done. -/
def Host.conclude (w : Host) (h : Handle) (label : String) : Stage → Host
  | .done a => { w with notes := w.notes ++ [Note.answered h label a] }
  | _ => w

theorem Host.conclude_eq (w : Host) (h : Handle) (label : String) (p : Stage) :
    w.conclude h label p = { w with notes := (w.conclude h label p).notes } := by
  cases p <;> rfl

/-- A call that is not done is still to be taken further. -/
def Stage.toChores (h : Handle) (label : String) : Stage → List Chore
  | .done _ => []
  | p => [.call h label p]

namespace Engine

/-- Does a chore; says what is to be done in its place. -/
def attend (e : Engine) : Chore → Engine × List Chore × List Deed
  | .emit o => ({ e with host := (e.host.unpack o).1 }, (e.host.unpack o).2, [])
  | .call h label p =>
    ({ e with host := (e.host.proceed p).1.conclude h label (e.host.proceed p).2.1 },
      (e.host.proceed p).2.1.toChores h label, (e.host.proceed p).2.2)
  | .send t => ({ e with host := (e.host.enqueue t).1 }, [], [.sent true t (e.host.enqueue t).2])
  | .sweep => ({ e with host := e.host.swept }, [], [])
  | .terminate => (e.refuse, [.signal], [.refused])
  | .signal => (e.signal, [], [])

/-- The dispatcher thread has built the client and made its channel. -/
def construct (e : Engine) : Engine :=
  { e with host := { e.host with intake := e.host.intake.addChannel {} } }

/-- The dispatcher takes over what the intake kept. -/
def install (e : Engine) : Engine :=
  { e with host := { e.host with intake := e.host.intake.start ⟨0, 1⟩ }, phase := .serving }

end Engine

/-- The flag of an engine that was signalled stands for a receiver that subscribed
before the dispatcher thread was made: it gets nothing exactly as long as nothing
was triggered, and a signal or the news of missed ones from then on. -/
theorem Broadcast.receive_of_triggers (n : Nat) :
    ((n.repeat (fun b => b.trigger.1) ({} : Broadcast).subscribe).receive 0).map (·.2) =
      some (if n = 0 then .empty else if n = 1 then .signal else .lagged (n - 1)) := by
  have hstate : n.repeat (fun b => b.trigger.1) ({} : Broadcast).subscribe =
      { sent := n, receivers := [some 0] } := by
    induction n with
    | zero => rfl
    | succ n ih => rw [Nat.repeat, ih]; rfl
  rw [hstate]
  unfold receive
  by_cases h0 : n = 0
  · simp [h0]
  · by_cases h1 : n = 1
    · simp [h1]
    · simp [h0, h1, Ne.symm h0, Ne.symm h1]

/-- An engine, the chores of the task in flight, the calls of all threads so
far, each at its stage, and how many threads are between the two steps of
termination. -/
structure Scene where
  engine : Engine
  agenda : List Chore := []
  callers : List Stage := []
  leaving : Nat := 0
  /-- The dispatcher has found its queue empty, and looks at the signal next. -/
  listening : Bool := false
  /-- What was in the queue when the dispatcher left its loop. -/
  stranded : List Task := []

namespace Scene

/-- Some thread gets its turn. -/
inductive Action
  /-- A thread comes to call the engine. -/
  | call (c : Call)
  /-- The call of that number takes its next step. -/
  | proceed (n : Nat)
  /-- A thread takes the first step of termination. -/
  | refuse
  /-- A thread that has taken it takes the second. -/
  | signal
  /-- The dispatcher thread builds the client. -/
  | construct
  /-- It installs the dispatcher. -/
  | install
  /-- It looks at its queue, and takes up a task if there is one. -/
  | look
  /-- It found its queue empty and looks at the signal. -/
  | listen
  /-- It goes on with its task. -/
  | chore
  /-- A task that held the dispatcher lets it go. -/
  | letGo
  /-- The pipeline, on whatever thread, sends a part of the response for a stream. -/
  | encode (h : Handle) (part : ResponsePart)

/-- The dispatcher takes up a task. -/
def take (s : Scene) : Task → Scene × List Deed
  | .hold => ({ s with engine := { s.engine with phase := .held } }, [.ran .hold])
  | .terminate => ({ s with agenda := [.terminate] }, [.ran .terminate])
  | t =>
    match s.engine.host.begin t with
    | .ok (w, chores) =>
      ({ s with engine := { s.engine with host := w }, agenda := chores ++ [.sweep] }, [.ran t])
    | .error f => ({ s with engine := s.engine.collapse }, [.ran t, .faulted f])

/-- The dispatcher looks at its queue, if it is between two tasks. -/
def look (s : Scene) : Scene × List Deed :=
  if s.agenda.isEmpty ∧ s.engine.phase = .serving ∧ s.listening = false then
    match s.engine.host.intake.next? 0 with
    | some (t, intake) =>
      { s with engine := { s.engine with host := { s.engine.host with intake := intake } } }.take t
    | none => ({ s with listening := true }, [.foundEmpty])
  else (s, [])

/-- It looks at the signal. If there is none it waits, and looks at its queue again
when it is woken. -/
def listen (s : Scene) : Scene × List Deed :=
  if s.listening then
    if s.engine.signalled then
      ({ s with
          engine := s.engine.exit
          listening := false
          stranded := s.engine.host.intake.pending 0 }, [.left])
    else ({ s with listening := false }, [])
  else (s, [])

/-- An action, and what happens in it. An action that is not possible as things
stand changes nothing. -/
def step (s : Scene) : Action → Scene × List Deed
  -- only encoders reach past the facade
  | .call (.enqueue _) => (s, [])
  | .call c => ({ s with callers := s.callers ++ [.begun c] }, [])
  | .proceed n =>
    match s.callers[n]? with
    | none => (s, [])
    | some p =>
      ({ s with
          engine := { s.engine with host := (s.engine.host.proceed p).1 }
          callers := s.callers.set n (s.engine.host.proceed p).2.1 },
        (s.engine.host.proceed p).2.2)
  | .refuse => ({ s with engine := s.engine.refuse, leaving := s.leaving + 1 }, [.refused])
  | .signal =>
    if s.leaving = 0 then (s, [])
    else ({ s with engine := s.engine.signal, leaving := s.leaving - 1 }, [])
  | .construct =>
    if s.engine.phase = .building ∧ s.engine.host.intake.channels.length = 0 then
      ({ s with engine := s.engine.construct }, [])
    else (s, [])
  | .install =>
    if s.engine.phase = .building ∧ s.engine.host.intake.channels.length ≠ 0 then
      ({ s with engine := s.engine.install }, [])
    else (s, [])
  | .look => s.look
  | .listen => s.listen
  | .chore =>
    match s.agenda with
    | [] => (s, [])
    | c :: rest =>
      ({ s with
          engine := (s.engine.attend c).1
          agenda := (s.engine.attend c).2.1 ++ rest },
        (s.engine.attend c).2.2)
  | .letGo =>
    if s.engine.phase = .held then
      ({ s with engine := { s.engine with phase := .serving } }, [])
    else (s, [])
  | .encode h part =>
    match s.engine.host.encode h part with
    | none => (s, [])
    | some (w, st) =>
      ({ s with engine := { s.engine with host := w } }, [.sent false (.operate (part.operation h)) st])

/-- What becomes of a task that is taken up. -/
theorem take_cases (s : Scene) (t : Task) :
    (t = .hold ∧ s.take t = ({ s with engine := { s.engine with phase := .held } }, [.ran t])) ∨
    (t = .terminate ∧ s.take t = ({ s with agenda := [.terminate] }, [.ran t])) ∨
    (∃ w chores, s.engine.host.begin t = .ok (w, chores) ∧
      s.take t = ({ s with engine := { s.engine with host := w }, agenda := chores ++ [.sweep] },
        [.ran t])) ∨
    ∃ f, s.engine.host.begin t = .error f ∧
      s.take t = ({ s with engine := s.engine.collapse }, [.ran t, .faulted f]) := by
  have begun (ht : s.take t = match s.engine.host.begin t with
      | .ok (w, chores) =>
        ({ s with engine := { s.engine with host := w }, agenda := chores ++ [.sweep] }, [.ran t])
      | .error f => ({ s with engine := s.engine.collapse }, [.ran t, .faulted f])) :
      (∃ w chores, s.engine.host.begin t = .ok (w, chores) ∧
        s.take t = ({ s with engine := { s.engine with host := w }, agenda := chores ++ [.sweep] },
          [.ran t])) ∨
      ∃ f, s.engine.host.begin t = .error f ∧
        s.take t = ({ s with engine := s.engine.collapse }, [.ran t, .faulted f]) := by
    rw [ht]
    cases s.engine.host.begin t with
    | ok r => exact .inl ⟨r.1, r.2, rfl, rfl⟩
    | error f => exact .inr ⟨f, rfl, rfl⟩
  cases t with
  | hold => exact .inl ⟨rfl, rfl⟩
  | terminate => exact .inr (.inl ⟨rfl, rfl⟩)
  | start _ _ | operate _ | has _ | claim _ | release _ | crash => exact .inr (.inr (begun rfl))

/-- What becomes of a look at the queue: it is not the time for one, a task is
taken up, or there is none. -/
theorem look_cases (s : Scene) :
    s.look = (s, []) ∨
    s.agenda = [] ∧ s.engine.phase = .serving ∧ s.listening = false ∧
      ((∃ t i, s.engine.host.intake.next? 0 = some (t, i) ∧
        s.look = { s with engine := { s.engine with
          host := { s.engine.host with intake := i } } }.take t) ∨
      s.engine.host.intake.next? 0 = none ∧
        s.look = ({ s with listening := true }, [.foundEmpty])) := by
  unfold look
  split
  · rename_i hnow
    refine .inr ⟨List.isEmpty_iff.mp hnow.1, hnow.2.1, hnow.2.2, ?_⟩
    split
    · rename_i t i hn
      exact .inl ⟨t, i, hn, rfl⟩
    · rename_i hn
      exact .inr ⟨hn, rfl⟩
  · exact .inl rfl

/-- What becomes of a look at the signal: it is not the time for one, the
dispatcher goes back to its queue, or it leaves its loop. -/
theorem listen_cases (s : Scene) :
    s.listen = (s, []) ∨
    s.listening = true ∧
      (s.listen = ({ s with listening := false }, []) ∨
      s.engine.signalled = true ∧
        s.listen = ({ s with
          engine := s.engine.exit
          listening := false
          stranded := s.engine.host.intake.pending 0 }, [.left])) := by
  unfold listen
  split
  · rename_i hl
    refine .inr ⟨hl, ?_⟩
    split
    · rename_i hs
      exact .inr ⟨hs, rfl⟩
    · exact .inl rfl
  · exact .inl rfl

variable {s : Scene}

/-- The call that an action takes further, at the stage it has come to. -/
def stage? (s : Scene) : Action → Option Stage
  | .proceed n => s.callers[n]?
  | .chore =>
    match s.agenda with
    | .call _ _ p :: _ => some p
    | _ => none
  | _ => none

/-- An action that takes a call further does what the call does. -/
theorem step_of_stage {a : Action} {p : Stage} (h : s.stage? a = some p) :
    ∃ w q ds, s.engine.host.Proceeds p w q ds ∧ (s.step a).2 = ds ∧
      (s.step a).1.engine.host.intake = w.intake ∧ (s.step a).1.engine.host.live = w.live := by
  refine ⟨_, _, _, s.engine.host.proceeds p, ?_⟩
  cases a with
  | proceed n =>
    unfold stage? at h
    unfold step
    dsimp only at h ⊢
    rw [h]
    exact ⟨rfl, rfl, rfl⟩
  | chore =>
    unfold stage? at h
    unfold step
    dsimp only at h ⊢
    split at h
    · rename_i k label q rest ha
      cases h
      rw [ha]
      dsimp only [Engine.attend]
      rw [Host.conclude_eq]
      exact ⟨rfl, rfl, rfl⟩
    · cases h
  | call _ | refuse | signal | construct | install | look | listen | letGo | encode _ _ => cases h

/-- What happens in an action happens in a step of a call or in a look at the
queue or the signal, or it is a send or the first step of termination. -/
theorem deed_cases {a : Action} {d : Deed} (hd : d ∈ (s.step a).2) :
    (∃ p w q ds, s.stage? a = some p ∧ s.engine.host.Proceeds p w q ds ∧ d ∈ ds) ∨
      a = .look ∧ d ∈ s.look.2 ∨ d ∈ s.listen.2 ∨ (∃ b t st, d = .sent b t st) ∨ d = .refused := by
  cases hp : s.stage? a with
  | some p =>
    obtain ⟨w, q, ds, hproceeds, hds, -⟩ := step_of_stage hp
    exact .inl ⟨p, w, q, ds, rfl, hproceeds, hds ▸ hd⟩
  | none =>
    refine .inr ?_
    cases a with
    | look => exact .inl ⟨rfl, hd⟩
    | listen => exact .inr (.inl hd)
    | refuse => exact .inr (.inr (.inr (List.mem_singleton.mp hd)))
    | call c => cases c <;> cases hd
    | proceed n =>
      have hnone : s.callers[n]? = none := hp
      unfold step at hd
      dsimp only at hd
      rw [hnone] at hd
      cases hd
    | signal | construct | install | letGo =>
      unfold step at hd
      dsimp only at hd
      split at hd <;> cases hd
    | encode h part =>
      unfold step at hd
      dsimp only at hd
      split at hd
      · cases hd
      · exact .inr (.inr (.inl ⟨_, _, _, List.mem_singleton.mp hd⟩))
    | chore =>
      unfold step at hd
      unfold stage? at hp
      dsimp only at hd hp
      split at hd
      · cases hd
      · rename_i c rest ha
        rw [ha] at hp
        cases c with
        | call _ _ _ => cases hp
        | emit _ | sweep | signal => cases hd
        | send t => exact .inr (.inr (.inl ⟨_, _, _, List.mem_singleton.mp hd⟩))
        | terminate => exact .inr (.inr (.inr (List.mem_singleton.mp hd)))

theorem answered_notMem_take (s : Scene) (t : Task) (h : Handle) (st : Status) :
    .answered h st ∉ (s.take t).2 := by
  rcases s.take_cases t with ⟨-, hk⟩ | ⟨-, hk⟩ | ⟨_, _, -, hk⟩ | ⟨_, -, hk⟩ <;> simp [hk]

theorem answered_notMem_look (s : Scene) (h : Handle) (st : Status) :
    .answered h st ∉ s.look.2 := by
  rcases s.look_cases with hk | ⟨-, -, -, ⟨t, _, -, hk⟩ | ⟨-, hk⟩⟩
  · simp [hk]
  · rw [hk]
    exact answered_notMem_take _ t h st
  · simp [hk]

theorem answered_notMem_listen (s : Scene) (h : Handle) (st : Status) :
    .answered h st ∉ s.listen.2 := by
  rcases s.listen_cases with hk | ⟨-, hk | ⟨-, hk⟩⟩ <;> simp [hk]

/-- The scene after a list of actions. -/
def after (s : Scene) : List Action → Scene
  | [] => s
  | a :: as => (s.step a).1.after as

/-- What happens along a list of actions. -/
def deeds (s : Scene) : List Action → List Deed
  | [] => []
  | a :: as => (s.step a).2 ++ (s.step a).1.deeds as

theorem after_append (s : Scene) (as bs : List Action) :
    s.after (as ++ bs) = (s.after as).after bs := by
  induction as generalizing s with
  | nil => rfl
  | cons a as ih => exact ih _

theorem deeds_append (s : Scene) (as bs : List Action) :
    s.deeds (as ++ bs) = s.deeds as ++ (s.after as).deeds bs := by
  induction as generalizing s with
  | nil => rfl
  | cons a as ih => simp only [List.cons_append, deeds, after, ih, List.append_assoc]

/-- Whatever happened, happened in one of the actions. -/
theorem deeds_split {s : Scene} {as : List Action} {d : Deed} {before later : List Deed}
    (h : s.deeds as = before ++ d :: later) :
    ∃ xs a ys us vs, as = xs ++ a :: ys ∧ ((s.after xs).step a).2 = us ++ d :: vs ∧
      before = s.deeds xs ++ us ∧ later = vs ++ (s.after (xs ++ [a])).deeds ys := by
  induction as generalizing s before with
  | nil => simp [deeds] at h
  | cons a as ih =>
    rw [deeds, List.append_eq_append_iff] at h
    rcases h with ⟨rest, hbefore, hrest⟩ | ⟨rest, hstep, hlater⟩
    · obtain ⟨xs, b, ys, us, vs, rfl, hb, rfl, rfl⟩ := ih hrest
      exact ⟨a :: xs, b, ys, us, vs, rfl, hb, by simp [hbefore, deeds], rfl⟩
    · cases rest with
      | nil =>
        obtain ⟨xs, b, ys, us, vs, rfl, hb, hnil, rfl⟩ := @ih _ [] hlater.symm
        refine ⟨a :: xs, b, ys, us, vs, rfl, hb, ?_, rfl⟩
        simp only [List.append_nil] at hstep
        simp only [deeds, List.append_assoc, ← hnil, List.append_nil, hstep]
      | cons d' rest =>
        obtain ⟨rfl, rfl⟩ : d = d' ∧ later = rest ++ (s.step a).1.deeds as := by simpa using hlater
        exact ⟨[], a, as, before, rest, rfl, hstep, rfl, rfl⟩

/-- A deed that is all an action did has none beside it. -/
theorem nothing_beside {d d' : Deed} {us vs : List Deed} (h : us ++ d :: vs = [d']) :
    us = [] ∧ vs = [] := by
  rcases List.append_eq_singleton_iff.mp h with ⟨hus, hvs⟩ | ⟨-, hvs⟩
  · exact ⟨hus, (List.cons.inj hvs).2⟩
  · cases hvs

/-! ### A turn that nobody interrupts -/

/-- The dispatcher goes on with its task for a while, and nobody interrupts it. -/
def Works (s t : Scene) : Prop := ∃ n, s.after (List.replicate n .chore) = t

theorem Works.refl (s : Scene) : Works s s := ⟨0, rfl⟩

theorem Works.trans {s t u : Scene} (hst : Works s t) (htu : Works t u) : Works s u := by
  obtain ⟨n, rfl⟩ := hst
  obtain ⟨m, rfl⟩ := htu
  exact ⟨n + m, by rw [← List.replicate_append_replicate, after_append]⟩

variable {e : Engine} {callers : List Stage} {leaving : Nat} {listening : Bool}
  {stranded : List Task}

theorem works_attend (c : Chore) (rest : List Chore) :
    Works ⟨e, c :: rest, callers, leaving, listening, stranded⟩
      ⟨(e.attend c).1, (e.attend c).2.1 ++ rest, callers, leaving, listening, stranded⟩ := ⟨1, rfl⟩

theorem works_start (h : Handle) (label : String) (k : Handle) (app : Application)
    (rest : List Chore) :
    Works ⟨e, .call h label (.begun (.start k app)) :: rest, callers, leaving, listening, stranded⟩
      ⟨{ e with host := { (e.host.call (.start k app)).1 with
          notes := (e.host.call (.start k app)).1.notes ++
            [Note.answered h label (e.host.call (.start k app)).2] } },
        rest, callers, leaving, listening, stranded⟩ := by
  refine (works_attend _ rest).trans ?_
  by_cases ha : e.host.attached = true
  · cases hl : e.host.live.claim k with
    | none =>
      simp only [Engine.attend, Host.proceed, Host.call, Host.startStream, Host.conclude,
        Stage.toChores, if_pos ha, hl]
      exact .refl _
    | some live =>
      simp only [Engine.attend, Host.proceed, Host.call, Host.startStream, Host.conclude,
        Stage.toChores, if_pos ha, hl]
      refine (works_attend _ rest).trans ?_
      cases hp : ({ e.host with live := live } : Host).post (.start k app) with
      | mk v s =>
        cases s with
        | ok _ =>
          simp only [Engine.attend, Host.proceed, Host.conclude, Stage.toChores, hp]
          exact .refl _
        | error x =>
          simp only [Engine.attend, Host.proceed, Host.conclude, Stage.toChores, hp]
          exact works_attend _ rest
  · simp only [Engine.attend, Host.proceed, Host.call, if_neg ha]
    exact .refl _

/-- A call that nobody interrupts is the call of the host. -/
theorem call_at_once (h : Handle) (label : String) (c : Call) (rest : List Chore) :
    Works ⟨e, .call h label (.begun c) :: rest, callers, leaving, listening, stranded⟩
      ⟨{ e with host := { (e.host.call c).1 with
          notes := (e.host.call c).1.notes ++ [Note.answered h label (e.host.call c).2] } },
        rest, callers, leaving, listening, stranded⟩ := by
  cases c with
  | start k app => exact works_start h label k app rest
  | enqueue _ | init | resume _ _ | setNetwork _ | network | post _ => exact works_attend _ rest

theorem works_calls (h : Handle) (calls : List (String × Call)) (rest : List Chore) :
    Works ⟨e, (calls.map fun a => .call h a.1 (.begun a.2)) ++ rest, callers, leaving, listening, stranded⟩
      ⟨{ e with host := calls.foldl (fun w (label, c) =>
          let (w, a) := w.call c
          { w with notes := w.notes ++ [Note.answered h label a] }) e.host },
        rest, callers, leaving, listening, stranded⟩ := by
  induction calls generalizing e with
  | nil => exact .refl _
  | cons a calls ih => exact (call_at_once h a.1 a.2 _).trans ih

/-- A channel that refuses one piece of work refuses every other. -/
theorem send_refused {α : Type} {i : Intake α} {n : Nat} {a : α} (h : i.send n a = none) (b : α) :
    i.send n b = none := by
  unfold Intake.send at h ⊢
  cases hc : i.channels[n]? with
  | none => rfl
  | some c =>
    simp only [hc, Option.bind_eq_bind, Option.bind_some, Channel.send] at h ⊢
    split at h
    · cases h
    · rename_i ho
      rw [if_neg ho]
      rfl

/-- Sends that are refused change nothing. -/
theorem works_sends_refused (hn : ∀ t, e.host.intake.send 0 t = none) (ts : List Task)
    (rest : List Chore) :
    Works ⟨e, ts.map .send ++ rest, callers, leaving, listening, stranded⟩ ⟨e, rest, callers, leaving, listening, stranded⟩ := by
  induction ts with
  | nil => exact .refl _
  | cons t ts ih =>
    refine (works_attend _ _).trans ?_
    simp only [Engine.attend, Host.enqueue, hn t]
    exact ih

theorem works_sends (ts : List Task) (rest : List Chore) :
    Works ⟨e, ts.map .send ++ rest, callers, leaving, listening, stranded⟩
      ⟨{ e with host := { e.host with intake := (e.host.intake.sendAll 0 ts).1 } },
        rest, callers, leaving, listening, stranded⟩ := by
  induction ts generalizing e with
  | nil => exact .refl _
  | cons t ts ih =>
    cases hs : e.host.intake.send 0 t with
    | none =>
      simp only [Intake.sendAll, hs]
      exact works_sends_refused (send_refused hs) _ _
    | some i =>
      refine (works_attend _ _).trans ?_
      simp only [Engine.attend, Host.enqueue, Intake.sendAll, hs]
      exact ih

theorem works_emit (o : Output) (rest : List Chore) :
    Works ⟨e, .emit o :: rest, callers, leaving, listening, stranded⟩
      ⟨{ e with host := e.host.emit o }, rest, callers, leaving, listening, stranded⟩ := by
  refine (works_attend _ rest).trans ?_
  cases o with
  | opened id => exact .refl _
  | released h => exact .refl _
  | told id x =>
    simp only [Engine.attend, Host.unpack, Host.emit, Host.tell]
    cases ha : e.host.applications.find? id.serial with
    | none => exact .refl _
    | some app => exact works_calls id.handle (app.answersTo x.kind) rest
  | called id c =>
    have hs := @works_sends { e with host := { e.host with
        pipeline := (e.host.pipeline.call id c).1
        traces := e.host.traces ++ [(id.handle, Trace.called c)] } } callers leaving listening stranded
      ((e.host.pipeline.call id c).2.map fun p => .operate (p.operation id.handle)) rest
    rw [List.map_map] at hs
    exact hs

theorem works_emits (outs : List Output) (rest : List Chore) :
    Works ⟨e, outs.map .emit ++ rest, callers, leaving, listening, stranded⟩
      ⟨{ e with host := outs.foldl Host.emit e.host }, rest, callers, leaving, listening, stranded⟩ := by
  induction outs generalizing e with
  | nil => exact .refl _
  | cons o outs ih => exact (works_emit o _).trans ih

end Scene

namespace Host

variable {v w : Host} {chores : List Chore}

theorem operate_of_launch {op : Operation} (h : w.launch op = .ok (v, chores)) :
    ∃ outs : List Output, chores = outs.map .emit ∧ w.operate op = .ok (outs.foldl emit v) := by
  unfold launch at h
  unfold operate
  split at h
  · cases h
  · rename_i hon
    rw [if_neg hon]
    cases hs : w.client.step w.network op with
    | error f =>
      rw [hs] at h
      cases h
    | ok r =>
      rw [hs] at h
      cases h
      exact ⟨r.2, rfl, rfl⟩

theorem operate_of_launch_error {op : Operation} {f : Fault} (h : w.launch op = .error f) :
    w.operate op = .error f := by
  unfold launch at h
  unfold operate
  split at h
  · rename_i hoff
    rw [if_pos hoff]
    cases h
    rfl
  · rename_i hon
    rw [if_neg hon]
    cases hs : w.client.step w.network op with
    | error g =>
      rw [hs] at h
      cases h
      rfl
    | ok r =>
      rw [hs] at h
      cases h

/-- A turn is a task that is begun, what the client put out, and a sweep. -/
theorem turn_of_begin {t : Task} (h : w.begin t = .ok (v, chores)) :
    ∃ outs : List Output, chores = outs.map .emit ∧ w.turn t = .ok (outs.foldl emit v).swept := by
  have ran {u : Host} {op : Operation}
      (hrun : w.run t = (u.operate op).map fun u => (u, Answer.nothing))
      (hl : u.launch op = .ok (v, chores)) :
      ∃ outs : List Output, chores = outs.map .emit ∧ w.turn t = .ok (outs.foldl emit v).swept := by
    obtain ⟨outs, houts, hop⟩ := operate_of_launch hl
    refine ⟨outs, houts, ?_⟩
    unfold turn
    rw [hrun, hop]
    exact operate_sweep _
  have quiet (hb : w.begin t = (w.run t).map fun r => (r.1, [])) :
      ∃ outs : List Output, chores = outs.map .emit ∧
        w.turn t = .ok (outs.foldl emit v).swept := by
    rw [hb] at h
    unfold turn
    cases hrun : w.run t with
    | error f =>
      rw [hrun] at h
      cases h
    | ok r =>
      rw [hrun] at h
      cases h
      exact ⟨[], rfl, operate_sweep _⟩
  cases t with
  | start _ _ | operate _ => exact ran rfl h
  | has _ | terminate | hold | claim _ | release _ | crash => exact quiet rfl

theorem turn_of_begin_error {t : Task} {f : Fault} (h : w.begin t = .error f) :
    w.turn t = .error f := by
  unfold turn
  cases t with
  | start k app => rw [run, operate_of_launch_error h]; rfl
  | operate op => rw [run, operate_of_launch_error h]; rfl
  | crash => cases h; rfl
  | has _ | terminate | hold => cases h
  | claim k | release k =>
    simp only [begin, run] at h
    split at h <;> cases h

end Host

namespace Scene

variable {e : Engine} {callers : List Stage} {leaving : Nat} {listening : Bool}
  {stranded : List Task}

/-- A task that is taken up and nobody interrupts is run as the engine runs it. -/
theorem works_take (t : Task) :
    Works (take ⟨e, [], callers, leaving, listening, stranded⟩ t).1 ⟨e.runTask t, [], callers, leaving, listening, stranded⟩ := by
  have turned (hok : ∀ w, e.host.turn t = .ok w → e.runTask t = { e with host := w })
      (herror : ∀ f, e.host.turn t = .error f → e.runTask t = e.collapse)
      (hhold : t ≠ .hold) (hterm : t ≠ .terminate) :
      Works (take ⟨e, [], callers, leaving, listening, stranded⟩ t).1 ⟨e.runTask t, [], callers, leaving, listening, stranded⟩ := by
    rcases take_cases ⟨e, [], callers, leaving, listening, stranded⟩ t with
      ⟨h, -⟩ | ⟨h, -⟩ | ⟨w, chores, hb, ht⟩ | ⟨f, hb, ht⟩
    · exact absurd h hhold
    · exact absurd h hterm
    · obtain ⟨outs, rfl, hturn⟩ := Host.turn_of_begin hb
      rw [ht, hok _ hturn]
      exact (works_emits outs [.sweep]).trans (works_attend .sweep [])
    · rw [ht, herror f (Host.turn_of_begin_error hb)]
      exact .refl _
  cases t with
  | hold => exact .refl _
  | terminate => exact (works_attend .terminate []).trans (works_attend .signal [])
  | start _ _ | operate _ | has _ | claim _ | release _ | crash =>
    refine turned (fun w h => ?_) (fun f h => ?_) (by simp) (by simp) <;>
      simp only [Engine.runTask, h]

/-- A look at the queue, and what it leads to if nobody interrupts it, is a turn of
the engine. -/
theorem turn_of_look {e' : Engine} (h : e.turn = some e') :
    ∃ as, (⟨e, [], callers, leaving, false, []⟩ : Scene).after (.look :: as) =
      ⟨e', [], callers, leaving, false, []⟩ := by
  cases hp : e.phase with
  | building | held | ended => simp [Engine.turn, hp] at h
  | serving =>
    have hturn : e.turn = match e.host.intake.next? 0 with
        | some (t, intake) => some ({ e with host := { e.host with intake := intake } }.runTask t)
        | none => if e.signalled then some e.exit else none := by
      obtain ⟨host, phase, signalled⟩ := e
      obtain rfl : phase = .serving := hp
      rfl
    rw [hturn] at h
    cases hn : e.host.intake.next? 0 with
    | some r =>
      obtain ⟨t, intake⟩ := r
      simp only [hn, Option.some.injEq] at h
      subst h
      obtain ⟨n, hworks⟩ := @works_take { e with host := { e.host with intake := intake } } callers
        leaving false [] t
      refine ⟨List.replicate n .chore, ?_⟩
      rw [after, step, look, if_pos ⟨rfl, hp, rfl⟩]
      simp only [hn]
      exact hworks
    | none =>
      simp only [hn] at h
      split at h
      · rename_i hs
        cases h
        have hempty : e.host.intake.pending 0 = [] := Intake.next?_eq_none.mp hn
        refine ⟨[.listen], ?_⟩
        simp only [after, step, look, listen, hp, hn, hs, hempty, List.isEmpty_nil, and_self,
          if_true]
      · cases h

end Scene
end HttpExchange
