/-
# What shutdown leaves unsaid

The dispatcher leaves its loop once it has been told to, after it has found its
queue empty. The streams that are registered then stay so, and nobody tells them
anything any more: of the streams that were opened, just those that have been
retired by then have been told how they ended. A start that is accepted after the
last look at the queue is lost with it, and its stream is never opened
(`Scene.final_event_iff_retired`).

The starts that are run open streams in the order in which they were accepted, so
the stream of a start goes by the number of starts that were accepted before it.
What the client puts out takes effect one by one, between the steps of other
threads; whatever is put out is owed (`Scene.owed`) until it takes effect, and
nothing is owed in the end. The events among what takes effect are those that
applications note (`Scene.noted`).

Key definitions: `Client.Opens`, `Host.PutsOut`, `Scene.asked`, `Scene.owed`,
`Scene.effects`, `Scene.Moves`.
Key theorems: `Scene.moves_step`, `Scene.moves`, `Scene.noted`, `Scene.told_at_end`,
`Scene.ran_of_looked`, `Scene.unrun_of_unlooked`, `Scene.final_event_iff_retired`.
-/
import HttpExchange.Cli.Exchange
import HttpExchange.Proofs.Ending
import HttpExchange.Proofs.Survival

namespace HttpExchange

/-! ### Final events -/

/-- Ongoing events are not final. -/
theorem countP_isFinal_ongoing {es : List Event} (h : ∀ e ∈ es, e.isOngoing) :
    es.countP Event.isFinal = 0 := by
  rw [List.countP_eq_zero]
  intro e he
  have ho := h e he
  cases e with
  | headers _ _ | data _ _ | trailers _ => simp [Event.isFinal]
  | error _ | complete | cancel => cases ho

theorem Ending.countP_isFinal {es : List Event} (h : Ending es) : es.countP Event.isFinal = 1 := by
  cases h with
  | @completed e he =>
    cases e with
    | headers _ _ | data _ _ | trailers _ => rfl
    | error _ | complete | cancel => cases he
  | failed _ | cancelled => rfl

theorem OpenLog.countP_isFinal {turns : List (List Event)} (h : OpenLog turns) :
    turns.flatten.countP Event.isFinal = 0 := countP_isFinal_ongoing h

theorem EndedLog.countP_isFinal {turns : List (List Event)} (h : EndedLog turns) :
    turns.flatten.countP Event.isFinal = 1 := by
  obtain ⟨before, first, ending, later, ho, he, hl⟩ := h
  calc (before ++ (first ++ ending) :: later).flatten.countP Event.isFinal
      = ((before.flatten ++ first) ++ (ending ++ later.flatten)).countP Event.isFinal := by
        simp only [List.flatten_append, List.flatten_cons, List.append_assoc]
    _ = (before.flatten ++ first).countP Event.isFinal + ending.countP Event.isFinal := by
        rw [hl, List.append_nil, List.countP_append]
    _ = 1 := by rw [countP_isFinal_ongoing ho, he.countP_isFinal]

/-! ### Starts -/

/-- The handle of the stream that an operation starts. -/
def Operation.opens : Operation → List Handle
  | .start h => [h]
  | _ => []

/-- The handle of the stream that a task starts, whoever it reports to. -/
def Task.opens : Task → List Handle
  | .start h _ => [h]
  | .operate op => op.opens
  | _ => []

namespace Client

variable {c d e : Client} {hs ks : List Handle} {outs outs' : List Output}

/-- From one client to another, streams were opened under these handles, in
order. -/
structure Opens (c : Client) (hs : List Handle) (outs : List Output) (d : Client) : Prop where
  serial : d.nextSerial = c.nextSerial + hs.length
  opened : ∀ n h, hs[n]? = some h → .opened ⟨h, c.nextSerial + n⟩ ∈ outs

theorem Opens.nothing (h : d.nextSerial = c.nextSerial) : Opens c [] outs d := ⟨h, nofun⟩

theorem Opens.trans (hcd : Opens c hs outs d) (hde : Opens d ks outs' e) :
    Opens c (hs ++ ks) (outs ++ outs') e where
  serial := by
    have h1 := hcd.serial
    have h2 := hde.serial
    rw [List.length_append]
    omega
  opened n h hn := by
    rw [List.mem_append]
    by_cases hlt : n < hs.length
    · rw [List.getElem?_append_left hlt] at hn
      exact .inl (hcd.opened n h hn)
    · rw [List.getElem?_append_right (Nat.le_of_not_lt hlt)] at hn
      have ho := hde.opened _ h hn
      rw [hcd.serial] at ho
      have hsum : c.nextSerial + hs.length + (n - hs.length) = c.nextSerial + n := by omega
      exact .inr (hsum ▸ ho)

/-- An operation that starts no stream gives out no serial. -/
theorem Does.nextSerial_eq {op : Operation} (hd : Does c op d outs) (hop : ∀ h, op ≠ .start h) :
    d.nextSerial = c.nextSerial := by
  cases hd with
  | absent _ _ _ | unsent _ _ _ | ungranted _ | swept => rfl
  | taken _ | started _ _ => exact absurd rfl (hop _)
  | cancelled _ hp | sent _ _ _ _ _ _ hp | answered _ _ _ hp => exact hp.nextSerial

/-- An operation that goes through opens the stream that it starts. -/
theorem opens_step (hc : c.Sound) {network : Network} {op : Operation}
    (h : c.step network op = .ok (d, outs)) : Opens c op.opens outs d := by
  by_cases hop : ∃ k, op = .start k
  · obtain ⟨k, rfl⟩ := hop
    cases he : c.entry k with
    | some e =>
      rw [show c.step network (.start k) = _ from start_registered he] at h
      cases h
    | none =>
      obtain ⟨r, -, hs⟩ := start_unregistered he
      rw [show c.step network (.start k) = _ from hs] at h
      cases h
      refine ⟨rfl, fun n j hn => ?_⟩
      obtain ⟨rfl, rfl⟩ : n = 0 ∧ j = k := by
        cases n with
        | zero => exact ⟨rfl, (Option.some.inj hn).symm⟩
        | succ n => cases hn
      exact List.mem_singleton_self _
  · have hnone : op.opens = [] := by
      cases op with
      | start k => exact absurd ⟨k, rfl⟩ hop
      | sendHeaders _ _ _ | sendData _ _ _ | sendTrailers _ _ | cancel _ | resume _ _
      | onHeaders _ _ _ | onData _ _ _ | onTrailers _ _ | onReset _ _ | sweep => rfl
    have hadv : c.advance ⟨op, network⟩ = (d, outs) := by
      unfold advance
      rw [h]
    have hd := does_advance hc.disjoint ⟨op, network⟩
    rw [hadv] at hd
    rw [hnone]
    exact .nothing (hd.nextSerial_eq fun k hk => hop ⟨k, hk⟩)

end Client

/-- The event that an application was told, and the handle of its stream. -/
def Note.event? : Note → Option (Handle × Event)
  | .told h e => some (h, e)
  | _ => none

/-- The event that an application is told, and the handle of its stream. -/
def Output.event? : Output → Option (Handle × Event)
  | .told id e => some (id.handle, e)
  | _ => none

/-! ### Tasks -/

/-- The output that a chore is to let take effect. -/
def Chore.output? : Chore → Option Output
  | .emit o => some o
  | _ => none

theorem filterMap_output?_emit (outs : List Output) :
    (outs.map .emit).filterMap Chore.output? = outs := by
  rw [List.filterMap_map]
  exact List.filterMap_some

namespace Host

open Client (Opens)

variable {v w : Host} {chores : List Chore}

/-- The client made moves that open streams under these handles, and what they put
out is all left as chores. -/
structure PutsOut (w : Host) (hs : List Handle) (chores : List Chore) (v : Host) (ms : List Move) :
    Prop where
  client : v.client = w.client.after ms
  outputs : chores.filterMap Chore.output? = (w.client.outputs ms).flatten
  opens : Opens w.client hs (w.client.outputs ms).flatten v.client

theorem putsOut_launch (hw : w.client.Sound) {op : Operation} (h : w.launch op = .ok (v, chores)) :
    ∃ ms, PutsOut w op.opens chores v ms := by
  unfold launch at h
  split at h
  · cases h
  · cases hs : w.client.step w.network op with
    | error f =>
      rw [hs] at h
      cases h
    | ok r =>
      rw [hs] at h
      cases h
      have hadv : w.client.advance ⟨op, w.network⟩ = r := by
        unfold Client.advance
        rw [hs]
      have houts : (w.client.outputs [⟨op, w.network⟩]).flatten = r.2 := by
        simp only [Client.outputs, hadv, List.flatten_cons, List.flatten_nil, List.append_nil]
      refine ⟨[⟨op, w.network⟩], ?_, ?_, ?_⟩
      · simp only [Client.after, hadv]
      · rw [filterMap_output?_emit, houts]
      · rw [houts]
        exact Client.opens_step hw hs

theorem putsOut_begin (hw : w.client.Sound) {t : Task} (h : w.begin t = .ok (v, chores)) :
    ∃ ms, PutsOut w t.opens chores v ms := by
  cases t with
  | start k app =>
    obtain ⟨ms, hc, ho, hs⟩ := putsOut_launch
      (w := { w with applications := w.applications.insert w.client.nextSerial app }) hw h
    exact ⟨ms, hc, ho, hs⟩
  | operate op => exact putsOut_launch hw h
  | crash => cases h
  | has _ | terminate | hold =>
    cases h
    exact ⟨[], rfl, rfl, .nothing rfl⟩
  | claim k | release k =>
    simp only [begin, run] at h
    split at h <;> cases h <;> exact ⟨[], rfl, rfl, .nothing rfl⟩

/-- Beginning a task tells applications nothing yet. -/
theorem notes_begin {t : Task} (h : w.begin t = .ok (v, chores)) : v.notes = w.notes := by
  cases t with
  | start k app => rw [launch_keeps h]
  | operate op => rw [launch_keeps h]
  | crash => cases h
  | has _ | terminate | hold =>
    cases h
    rfl
  | claim k | release k =>
    simp only [begin, run] at h
    split at h <;> cases h <;> rfl

/-- Letting an output take effect leaves the client alone, and puts out nothing more. -/
theorem unpack_quiet (w : Host) (o : Output) :
    (w.unpack o).1.client = w.client ∧ (w.unpack o).2.filterMap Chore.output? = [] := by
  cases o with
  | opened _ | released _ => exact ⟨rfl, rfl⟩
  | called id c =>
    refine ⟨rfl, ?_⟩
    unfold unpack
    rw [List.filterMap_map]
    exact List.filterMap_eq_nil_iff.mpr fun _ _ => rfl
  | told id x =>
    refine ⟨rfl, ?_⟩
    unfold unpack
    dsimp only
    split
    · rfl
    · rw [List.filterMap_map]
      exact List.filterMap_eq_nil_iff.mpr fun _ _ => rfl

theorem Proceeds.ran {q q' : Stage} {ds : List Deed} (h : w.Proceeds q v q' ds) :
    Scene.ran ds = [] := by
  cases h <;> rfl

end Host

theorem output?_toChores (h : Handle) (label : String) (q : Stage) :
    (q.toChores h label).filterMap Chore.output? = [] := by
  cases q <;> rfl

/-- Only the sweep at the end of a task is a move of the client, and no chore puts
anything out. -/
theorem Engine.putsOut_attend (e : Engine) (c : Chore) :
    ∃ ms, e.host.PutsOut [] (e.attend c).2.1 (e.attend c).1.host ms ∧
      (e.attend c).2.1.filterMap Chore.output? = [] ∧ Scene.ran (e.attend c).2.2 = [] := by
  cases c with
  | emit o =>
    obtain ⟨hclient, hnone⟩ := e.host.unpack_quiet o
    exact ⟨[], ⟨hclient, hnone, .nothing (congrArg _ hclient)⟩, hnone, rfl⟩
  | call h label q =>
    have hp := e.host.proceeds q
    have hnone := output?_toChores h label (e.host.proceed q).2.1
    have hclient : (e.attend (.call h label q)).1.host.client = e.host.client := by
      dsimp only [attend]
      rw [Host.conclude_eq, hp.frame]
    exact ⟨[], ⟨hclient, hnone, .nothing (congrArg _ hclient)⟩, hnone, hp.ran⟩
  | send t =>
    have hclient : (e.attend (.send t)).1.host.client = e.host.client := by
      dsimp only [attend]
      rw [Host.enqueue_eq]
    exact ⟨[], ⟨hclient, rfl, .nothing (congrArg _ hclient)⟩, rfl, rfl⟩
  | sweep => exact ⟨[⟨.sweep, .generic⟩], ⟨rfl, rfl, .nothing rfl⟩, rfl, rfl⟩
  | terminate | signal => exact ⟨[], ⟨rfl, rfl, .nothing rfl⟩, rfl, rfl⟩

/-! ### Scenes -/

namespace Scene

open Client (Opens)

variable {s r q : Scene}

/-- What the client has put out that is yet to take effect. -/
def owed (s : Scene) : List Output := s.agenda.filterMap Chore.output?

/-- The output that takes effect in an action, if one does. -/
def effect (s : Scene) : Action → List Output
  | .chore => (s.agenda.head?.bind Chore.output?).toList
  | _ => []

/-- The outputs that take effect along a list of actions, in order. -/
def effects (s : Scene) : List Action → List Output
  | [] => []
  | a :: as => s.effect a ++ (s.step a).1.effects as

/-- The handles under which the accepted tasks start streams, in order. -/
def asked (ds : List Deed) : List Handle := (accepted ds).flatMap Task.opens

/-- From one scene to another, the client made these moves: what they put out has
taken effect or is owed, and they open the streams that the tasks start. -/
structure Moves (s : Scene) (ts : List Task) (out : List Output) (r : Scene) (ms : List Move) :
    Prop where
  client : r.engine.host.client = s.engine.host.client.after ms
  outputs : s.owed ++ (s.engine.host.client.outputs ms).flatten = out ++ r.owed
  opens : Opens s.engine.host.client (ts.flatMap Task.opens)
    (s.engine.host.client.outputs ms).flatten r.engine.host.client

theorem Moves.trans {ts us : List Task} {out out' : List Output} {ms ns : List Move}
    (hsr : Moves s ts out r ms) (hrq : Moves r us out' q ns) :
    Moves s (ts ++ us) (out ++ out') q (ms ++ ns) where
  client := by rw [hrq.client, hsr.client, Client.after_append]
  outputs := by
    have hmore := hrq.outputs
    rw [hsr.client] at hmore
    rw [Client.outputs_append, List.flatten_append, ← List.append_assoc, hsr.outputs,
      List.append_assoc, hmore, List.append_assoc]
  opens := by
    have hmore := hrq.opens
    rw [hsr.client] at hmore
    rw [Client.outputs_append, List.flatten_append, List.flatMap_append]
    exact (hsr.client ▸ hsr.opens).trans hmore

/-- What leaves the client and what it owes alone. -/
theorem Moves.quiet (hc : r.engine.host.client = s.engine.host.client) (ho : r.owed = s.owed) :
    Moves s [] [] r [] where
  client := hc
  outputs := by rw [ho]; exact List.append_nil _
  opens := .nothing (by rw [hc])

theorem moves_chore (s : Scene) :
    ∃ ms, Moves s (ran (s.step .chore).2) (s.effect .chore) (s.step .chore).1 ms := by
  unfold effect step
  dsimp only
  cases ha : s.agenda with
  | nil => exact ⟨[], .quiet rfl rfl⟩
  | cons c rest =>
    obtain ⟨ms, hp, hnone, hran⟩ := s.engine.putsOut_attend c
    have howed : s.owed = c.output?.toList ++ rest.filterMap Chore.output? := by
      unfold owed
      rw [ha, List.filterMap_cons]
      cases c.output? <;> rfl
    have houts := hp.outputs
    rw [hnone] at houts
    dsimp only
    rw [hran]
    refine ⟨ms, hp.client, ?_, hp.opens⟩
    rw [howed, ← houts, List.append_nil]
    unfold owed
    dsimp only
    rw [List.filterMap_append, hnone]
    rfl

/-- A task that is taken up makes the moves that it makes when it is begun. -/
theorem moves_take {t : Task} (hf : ∀ f, .faulted f ∉ (s.take t).2)
    (hs : s.engine.host.client.Sound) (ha : s.agenda = []) :
    ∃ ms, Moves s (ran (s.take t).2) [] (s.take t).1 ms := by
  have hnone : s.owed = [] := by
    unfold owed
    rw [ha]
    rfl
  have quiet {r : Scene} (hopens : t.opens = [])
      (hc : r.engine.host.client = s.engine.host.client) (ho : r.owed = []) :
      Moves s [t] [] r [] := by
    refine ⟨hc, by rw [hnone, ho]; rfl, ?_⟩
    rw [List.flatMap_singleton, hopens]
    exact .nothing (congrArg _ hc)
  rcases take_cases s t with ⟨rfl, h⟩ | ⟨rfl, h⟩ | ⟨w, chores, hb, h⟩ | ⟨f, -, h⟩
  · rw [h]
    exact ⟨[], quiet rfl rfl hnone⟩
  · rw [h]
    exact ⟨[], quiet rfl rfl rfl⟩
  · obtain ⟨ms, hp⟩ := Host.putsOut_begin hs hb
    rw [h]
    refine ⟨ms, hp.client, ?_, ?_⟩
    · rw [hnone, ← hp.outputs]
      unfold owed
      rw [List.filterMap_append]
      exact (List.append_nil _).symm
    · change Opens _ ([t].flatMap Task.opens) _ _
      rw [List.flatMap_singleton]
      exact hp.opens
  · rw [h] at hf
    exact absurd (List.mem_cons_of_mem _ List.mem_cons_self) (hf f)

theorem moves_look (hs : s.engine.host.client.Sound) (hf : ∀ f, .faulted f ∉ s.look.2) :
    ∃ ms, Moves s (ran s.look.2) [] s.look.1 ms := by
  rcases s.look_cases with h | ⟨ha, -, -, ⟨t, i, -, h⟩ | ⟨-, h⟩⟩
  · rw [h]
    exact ⟨[], .quiet rfl rfl⟩
  · rw [h] at hf ⊢
    obtain ⟨ms, hm⟩ := moves_take hf hs ha
    exact ⟨ms, hm.client, hm.outputs, hm.opens⟩
  · rw [h]
    exact ⟨[], .quiet rfl rfl⟩

theorem moves_listen (s : Scene) : Moves s (ran s.listen.2) [] s.listen.1 [] := by
  rcases s.listen_cases with h | ⟨-, h | ⟨-, h⟩⟩ <;> rw [h] <;> exact .quiet rfl rfl

/-- Whatever is done, what was owed and what the client puts out takes effect or
is owed, in order, and the tasks that are run open the streams they start. -/
theorem moves_step (hs : s.engine.host.client.Sound) (a : Action)
    (hf : ∀ f, .faulted f ∉ (s.step a).2) :
    ∃ ms, Moves s (ran (s.step a).2) (s.effect a) (s.step a).1 ms := by
  cases a with
  | look => exact moves_look hs hf
  | listen => exact ⟨[], moves_listen s⟩
  | chore => exact moves_chore s
  | call c => cases c <;> exact ⟨[], .quiet rfl rfl⟩
  | refuse => exact ⟨[], .quiet rfl rfl⟩
  | signal | construct | install | letGo =>
    unfold step
    dsimp only
    split <;> exact ⟨[], .quiet rfl rfl⟩
  | proceed n =>
    unfold step
    dsimp only
    split
    · exact ⟨[], .quiet rfl rfl⟩
    · rename_i q _
      have hp := s.engine.host.proceeds q
      rw [hp.ran]
      exact ⟨[], .quiet (by dsimp only; rw [hp.frame]) rfl⟩
  | encode h part =>
    unfold step Host.encode
    dsimp only
    split
    · exact ⟨[], .quiet rfl rfl⟩
    · rename_i w st hw
      split at hw
      · obtain rfl := congrArg Prod.fst (Option.some.inj hw)
        exact ⟨[], .quiet (by rw [Host.enqueue_eq]) rfl⟩
      · cases hw

theorem moves (hs : s.engine.host.client.Sound) {as : List Action}
    (hf : ∀ f, .faulted f ∉ s.deeds as) :
    ∃ ms, Moves s (ran (s.deeds as)) (s.effects as) (s.after as) ms := by
  induction as generalizing s with
  | nil => exact ⟨[], .quiet rfl rfl⟩
  | cons a as ih =>
    simp only [deeds, List.mem_append, not_or] at hf
    obtain ⟨ms, hm⟩ := moves_step hs a fun f => (hf f).1
    have hsound : (s.step a).1.engine.host.client.Sound := by
      rw [hm.client]
      exact Client.sound_after hs ms
    obtain ⟨ns, hn⟩ := ih hsound fun f => (hf f).2
    unfold deeds effects
    rw [ran_append]
    exact ⟨ms ++ ns, hm.trans hn⟩

/-! ### What is noted down -/

theorem noted_chore (s : Scene) :
    (s.step .chore).1.engine.host.notes.filterMap Note.event? =
      s.engine.host.notes.filterMap Note.event? ++ (s.effect .chore).filterMap Output.event? := by
  unfold effect step
  dsimp only
  cases ha : s.agenda with
  | nil => exact (List.append_nil _).symm
  | cons c rest =>
    dsimp only
    cases c with
    | emit o =>
      cases o with
      | told id e => exact List.filterMap_append
      | opened _ | called _ _ | released _ => exact (List.append_nil _).symm
    | call h label q =>
      have hp := s.engine.host.proceeds q
      have hnotes : (s.engine.host.proceed q).1.notes = s.engine.host.notes := by rw [hp.frame]
      change ((s.engine.host.proceed q).1.conclude h label _).notes.filterMap Note.event? = _ ++ []
      rw [List.append_nil, ← hnotes]
      cases (s.engine.host.proceed q).2.1 with
      | done a =>
        change ((s.engine.host.proceed q).1.notes ++ [Note.answered h label a]).filterMap _ = _
        rw [List.filterMap_append]
        exact List.append_nil _
      | begun _ | claimed _ _ | refused _ _ => rfl
    | send t =>
      change (s.engine.host.enqueue t).1.notes.filterMap Note.event? = _ ++ []
      rw [Host.enqueue_eq, List.append_nil]
    | sweep | terminate | signal => exact (List.append_nil _).symm

theorem noted_take (s : Scene) (t : Task) :
    (s.take t).1.engine.host.notes = s.engine.host.notes := by
  rcases take_cases s t with ⟨-, h⟩ | ⟨-, h⟩ | ⟨w, chores, hb, h⟩ | ⟨_, -, h⟩
  · rw [h]
  · rw [h]
  · rw [h]
    exact Host.notes_begin hb
  · rw [h]
    rfl

theorem noted_look (s : Scene) : s.look.1.engine.host.notes = s.engine.host.notes := by
  rcases s.look_cases with h | ⟨-, -, -, ⟨t, i, -, h⟩ | ⟨-, h⟩⟩
  · rw [h]
  · rw [h, noted_take]
  · rw [h]

theorem noted_listen (s : Scene) : s.listen.1.engine.host.notes = s.engine.host.notes := by
  rcases s.listen_cases with h | ⟨-, h | ⟨-, h⟩⟩ <;> rw [h]
  rfl

/-- The events that are noted down are those that take effect. -/
theorem noted_step (s : Scene) (a : Action) :
    (s.step a).1.engine.host.notes.filterMap Note.event? =
      s.engine.host.notes.filterMap Note.event? ++ (s.effect a).filterMap Output.event? := by
  have quiet {r : Scene} (h : r.engine.host.notes = s.engine.host.notes) :
      r.engine.host.notes.filterMap Note.event? =
        s.engine.host.notes.filterMap Note.event? ++ ([] : List Output).filterMap Output.event? := by
    rw [h]
    exact (List.append_nil _).symm
  cases a with
  | chore => exact noted_chore s
  | look => exact quiet (noted_look s)
  | listen => exact quiet (noted_listen s)
  | call c => cases c <;> exact quiet rfl
  | refuse => exact quiet rfl
  | signal | construct | install | letGo =>
    unfold step
    dsimp only
    split <;> exact quiet rfl
  | proceed n =>
    unfold step
    dsimp only
    split
    · exact quiet rfl
    · rename_i q _
      have hp := s.engine.host.proceeds q
      exact quiet (by dsimp only; rw [hp.frame])
  | encode h part =>
    unfold step Host.encode
    dsimp only
    split
    · exact quiet rfl
    · rename_i w st hw
      split at hw
      · obtain rfl := congrArg Prod.fst (Option.some.inj hw)
        exact quiet (by rw [Host.enqueue_eq])
      · cases hw

theorem noted (s : Scene) (as : List Action) :
    (s.after as).engine.host.notes.filterMap Note.event? =
      s.engine.host.notes.filterMap Note.event? ++ (s.effects as).filterMap Output.event? := by
  induction as generalizing s with
  | nil => exact (List.append_nil _).symm
  | cons a as ih =>
    unfold after effects
    rw [ih, noted_step, List.filterMap_append, List.append_assoc]

/-! ### The start of a stream -/

/-- A start that comes back with success comes from its claim, and its task has
just been accepted. -/
theorem step_of_answered {a : Action} {h : Handle} (hd : .answered h (.ok ()) ∈ (s.step a).2) :
    ∃ app, (s.step a).2 = [.posted (.start h app) (.ok ()), .answered h (.ok ())] := by
  cases hp : s.stage? a with
  | some p =>
    obtain ⟨w, q, ds, hproceeds, hds, -⟩ := step_of_stage hp
    rw [hds] at hd ⊢
    cases hproceeds with
    | @accepted k app _ =>
      obtain rfl : h = k := by simpa using hd
      exact ⟨app, rfl⟩
    | done _ | gone _ _ | claimed _ | quiet _ _ | posted _ | enqueued _ | duplicate _
    | turnedDown _ | givenBack _ _ => simp at hd
  | none =>
    rcases deed_cases hd with ⟨p, _, _, _, hk, -⟩ | ⟨-, hk⟩ | hk | ⟨b, t, st, hk⟩ | hk
    · rw [hp] at hk
      cases hk
    · exact absurd hk (answered_notMem_look s h _)
    · exact absurd hk (answered_notMem_listen s h _)
    · cases hk
    · cases hk

/-- The start of a stream was accepted just before its call came back. -/
theorem posted_of_answered {as : List Action} {before later : List Deed} {h : Handle}
    (hd : s.deeds as = before ++ .answered h (.ok ()) :: later) :
    ∃ earlier app, before = earlier ++ [.posted (.start h app) (.ok ())] := by
  obtain ⟨xs, a, ys, us, vs, -, hstep, rfl, -⟩ := deeds_split hd
  obtain ⟨app, honly⟩ := step_of_answered (a := a) (h := h) (by rw [hstep]; simp)
  refine ⟨s.deeds xs, app, ?_⟩
  rw [honly] at hstep
  cases us with
  | nil => simp at hstep
  | cons d us =>
    obtain ⟨rfl, hrest⟩ := List.cons.inj hstep
    rw [(nothing_beside hrest.symm).1]

theorem asked_append (xs ys : List Deed) : asked (xs ++ ys) = asked xs ++ asked ys := by
  unfold asked
  rw [accepted_append, List.flatMap_append]

/-! ### The end of the dispatcher -/

/-- Once the dispatcher has left its loop, nothing is owed. -/
theorem nothing_owed (hs : s.Wired) {as : List Action} (hf : ∀ f, .faulted f ∉ s.deeds as)
    (hl : .left ∈ s.deeds as) : (s.after as).owed = [] := by
  obtain ⟨before, later, hds⟩ := List.append_of_mem hl
  obtain ⟨xs, a, ys, us, vs, rfl, hstep, -, -, -, hc, hys⟩ := carries_split hs hf hds
  obtain ⟨-, -, hended⟩ := hc.left (by rw [hstep]; simp)
  have hend : (s.after (xs ++ a :: ys)).engine.phase = .ended := by
    rw [after_append]
    exact (nothing_after_end hc.wired hys hended).1
  unfold owed
  rw [(wired_after hs hf).idle (by simp [hend])]
  rfl

/-- What is told of a stream once the dispatcher has left its loop, if nobody had
called the engine before: of one whose start was run, an end if it is retired; of
any other, nothing. -/
theorem told_at_end (hs : s.Wired) (ho : s.owed = []) {config : Config} {draws : Draws}
    (hclient : s.engine.host.client = .ofConfig config draws) {as : List Action}
    (hf : ∀ f, .faulted f ∉ s.deeds as) (hl : .left ∈ s.deeds as) (id : StreamId) :
    (((ran (s.deeds as)).flatMap Task.opens)[id.serial]? = some id.handle →
      .opened id ∈ s.effects as ∧ (told id (s.effects as)).countP Event.isFinal =
        if ((s.after as).engine.host.client.find id).isSome then 0 else 1) ∧
    (((ran (s.deeds as)).flatMap Task.opens).length ≤ id.serial →
      .opened id ∉ s.effects as ∧ told id (s.effects as) = [] ∧
        (s.after as).engine.host.client.find id = none) := by
  have hsound : s.engine.host.client.Sound := hclient ▸ Client.sound_ofConfig config draws
  have hserial : s.engine.host.client.nextSerial = 0 := by rw [hclient]; rfl
  have hfresh : s.engine.host.client.find id = none := by rw [hclient]; rfl
  obtain ⟨ms, hm⟩ := moves hsound hf
  have hout : (s.engine.host.client.outputs ms).flatten = s.effects as := by
    have houts := hm.outputs
    rwa [ho, nothing_owed hs hf hl, List.nil_append, List.append_nil] at houts
  have hlog : told id (s.effects as) = (s.engine.host.client.log id ms).flatten := by
    rw [← hout]
    exact List.filterMap_flatten
  rw [hlog, hm.client, ← hout]
  constructor
  · intro hran
    have hopened := hm.opens.opened _ _ hran
    rw [hserial, Nat.zero_add] at hopened
    refine ⟨hopened, ?_⟩
    rcases Client.log_of_started hsound hfresh hopened with ⟨hopen, hreg⟩ | ⟨hend, hgone⟩
    · rw [if_pos hreg, hopen.countP_isFinal]
    · rw [hgone, hend.countP_isFinal]
      rfl
  · intro hlost
    have hunopened : .opened id ∉ (s.engine.host.client.outputs ms).flatten := by
      intro hopened
      have hlt := Client.serial_lt_of_opened hsound hfresh hopened
      rw [← hm.client, hm.opens.serial, hserial] at hlt
      omega
    refine ⟨hunopened, Client.log_of_unopened hsound hfresh hunopened, ?_⟩
    exact Classical.byContradiction fun hfind =>
      hunopened (Client.opened_of_find hsound hfresh hfind)

/-- If the dispatcher finds its queue empty after a start was accepted, the start has
been run. -/
theorem ran_of_looked (hs : s.Wired) (hb : s.backlog = []) {as : List Action}
    (hf : ∀ f, .faulted f ∉ s.deeds as) {earlier later : List Deed} {h : Handle} {d : Deed}
    (hds : s.deeds as = earlier ++ d :: later) (hd : asked [d] = [h])
    (hlook : .foundEmpty ∈ later) :
    ((ran (s.deeds as)).flatMap Task.opens)[(asked earlier).length]? = some h := by
  obtain ⟨between, rest, rfl⟩ := List.append_of_mem hlook
  have hsplit : s.deeds as = (earlier ++ [d] ++ between) ++ .foundEmpty :: rest := by
    rw [hds]
    simp
  have hran : (ran (earlier ++ [d] ++ between)).flatMap Task.opens =
      asked earlier ++ [h] ++ asked between := by
    rw [← ran_of_foundEmpty hs hf hsplit, hb, List.nil_append]
    change asked _ = _
    rw [asked_append, asked_append, hd]
  rw [hsplit, ran_append, List.flatMap_append, hran]
  simp

/-- If it does not, and leaves its loop, the start is never run. -/
theorem unrun_of_unlooked (hs : s.Wired) (hb : s.backlog = []) (hl : s.listening = false)
    {as : List Action} (hf : ∀ f, .faulted f ∉ s.deeds as) (hleft : .left ∈ s.deeds as)
    {earlier later : List Deed} (hds : s.deeds as = earlier ++ later)
    (hlook : .foundEmpty ∉ later) :
    ((ran (s.deeds as)).flatMap Task.opens).length ≤ (asked earlier).length := by
  obtain ⟨before, rest, hsplit⟩ := List.append_of_mem hleft
  obtain ⟨early, window, rfl, -, hran, -⟩ := left_split hs hl hf hsplit
  rw [hran, hb, List.nil_append]
  change (asked early).length ≤ _
  rw [hds, List.append_assoc, List.append_eq_append_iff] at hsplit
  rcases hsplit with ⟨more, -, rfl⟩ | ⟨more, rfl, -⟩
  · simp at hlook
  · rw [asked_append, List.length_append]
    omega

/-- In every order in which threads call an engine, its dispatcher works, the
pipeline sends parts of responses and the engine is terminated, as long as no
task gives up: once the dispatcher has left its loop, look at a stream whose start
came back with success. If the dispatcher has found its queue empty since, the stream has
been opened, and has been told of one final event if it is retired, and of none
if it is still registered, whatever is done afterwards. If it has not, the start
was handed in after its last look at the queue: the stream is never opened, and is
told of nothing. The events that take effect are those that applications have
noted. -/
theorem final_event_iff_retired {config : Config} {answers : Bool} {draws : Draws}
    {e : Engine} (he : Engine.start config answers draws = .ok e) (actions : List Action)
    (hf : ∀ f, .faulted f ∉ deeds { engine := e } actions)
    (hl : .left ∈ deeds { engine := e } actions) (before later : List Deed) (h : Handle)
    (hd : deeds { engine := e } actions = before ++ .answered h (.ok ()) :: later) :
    (after { engine := e } actions).engine.host.notes.filterMap Note.event? =
      (effects { engine := e } actions).filterMap Output.event? ∧
    ∃ earlier, asked before = earlier ++ [h] ∧
      (.foundEmpty ∈ later →
        .opened ⟨h, earlier.length⟩ ∈ effects { engine := e } actions ∧
        (told ⟨h, earlier.length⟩ (effects { engine := e } actions)).countP Event.isFinal =
          if ((after { engine := e } actions).engine.host.client.find ⟨h, earlier.length⟩).isSome
            then 0 else 1) ∧
      (.foundEmpty ∉ later →
        .opened ⟨h, earlier.length⟩ ∉ effects { engine := e } actions ∧
        told ⟨h, earlier.length⟩ (effects { engine := e } actions) = [] ∧
        (after { engine := e } actions).engine.host.client.find ⟨h, earlier.length⟩ = none) := by
  have hfresh : e.host.client = .ofConfig config draws ∧ e.host.notes = [] := by
    unfold Engine.start at he
    split at he
    · cases he
    · split at he <;> cases he
      exact ⟨rfl, rfl⟩
  have hw := wired_of_start he
  have hb := backlog_of_start he
  have hnoted := noted { engine := e } actions
  rw [show ({ engine := e } : Scene).engine.host.notes = [] from hfresh.2] at hnoted
  obtain ⟨earlier, app, rfl⟩ := posted_of_answered hd
  have hposted : deeds { engine := e } actions =
      earlier ++ .posted (.start h app) (.ok ()) :: .answered h (.ok ()) :: later := by
    rw [hd]
    simp
  obtain ⟨hrun, hunrun⟩ := told_at_end hw rfl hfresh.1 hf hl ⟨h, (asked earlier).length⟩
  refine ⟨hnoted, asked earlier, asked_append _ _, fun hlook => hrun ?_, fun hlook => hunrun ?_⟩
  · exact ran_of_looked hw hb hf hposted rfl (List.mem_cons_of_mem _ hlook)
  · exact unrun_of_unlooked hw hb rfl hf hl hposted (by simpa using hlook)

/-- Of four streams one is cancelled; one is registered when the dispatcher leaves its
loop, and is told of no end; one is started after the last look at the queue, and is
never opened; the last is refused. -/
theorem final_event_missing_at_shutdown :
    let actions : List Action := [.call (.start ⟨1⟩ .silent), .proceed 0, .proceed 0,
      .call (.start ⟨2⟩ .silent), .proceed 1, .proceed 1, .construct, .install, .look, .chore,
      .chore, .look, .chore, .chore, .call (.post (.operate (.cancel ⟨2⟩))), .proceed 2, .look,
      .chore, .chore, .chore, .chore, .chore, .look, .call (.start ⟨3⟩ .silent), .proceed 3,
      .proceed 3, .refuse, .call (.start ⟨4⟩ .silent), .proceed 4, .proceed 4, .proceed 4, .signal,
      .listen]
    let ds : List Deed := [.posted (.start ⟨1⟩ .silent) (.ok ()), .answered ⟨1⟩ (.ok ()),
      .posted (.start ⟨2⟩ .silent) (.ok ()), .answered ⟨2⟩ (.ok ()), .ran (.start ⟨1⟩ .silent),
      .ran (.start ⟨2⟩ .silent), .posted (.operate (.cancel ⟨2⟩)) (.ok ()),
      .ran (.operate (.cancel ⟨2⟩)), .foundEmpty, .posted (.start ⟨3⟩ .silent) (.ok ()),
      .answered ⟨3⟩ (.ok ()), .refused, .posted (.start ⟨4⟩ .silent) (.error .terminated),
      .answered ⟨4⟩ (.error .terminated), .left]
    ∃ e, Engine.start {} false {} = .ok e ∧ deeds { engine := e } actions = ds ∧
      (after { engine := e } actions).engine.host.notes.filterMap Note.event? = [(⟨2⟩, .cancel)] ∧
      .opened ⟨⟨1⟩, 0⟩ ∈ effects { engine := e } actions ∧
      (told ⟨⟨1⟩, 0⟩ (effects { engine := e } actions)).countP Event.isFinal = 0 ∧
      .opened ⟨⟨2⟩, 1⟩ ∈ effects { engine := e } actions ∧
      (told ⟨⟨2⟩, 1⟩ (effects { engine := e } actions)).countP Event.isFinal = 1 ∧
      .opened ⟨⟨3⟩, 2⟩ ∉ effects { engine := e } actions ∧
      told ⟨⟨3⟩, 2⟩ (effects { engine := e } actions) = [] := by
  intro actions ds
  refine ⟨_, rfl, rfl, ?_⟩
  have told (before later : List Deed) (h : Handle) := @final_event_iff_retired {} false {} _ rfl
    actions (fun f (hf : .faulted f ∈ ds) => by simp [ds] at hf) (show .left ∈ ds by simp [ds])
    before later h
  obtain ⟨hnoted, earlier, hfirst, hrun, -⟩ := told (ds.take 1) (ds.drop 2) ⟨1⟩ rfl
  obtain ⟨-, earlier', hsecond, hrun', -⟩ := told (ds.take 3) (ds.drop 4) ⟨2⟩ rfl
  obtain ⟨-, earlier'', hthird, -, hlost⟩ := told (ds.take 10) (ds.drop 11) ⟨3⟩ rfl
  change [] ++ [⟨1⟩] = earlier ++ [⟨1⟩] at hfirst
  change [⟨1⟩] ++ [⟨2⟩] = earlier' ++ [⟨2⟩] at hsecond
  change [⟨1⟩, ⟨2⟩] ++ [⟨3⟩] = earlier'' ++ [⟨3⟩] at hthird
  obtain rfl := List.append_cancel_right hfirst
  obtain rfl := List.append_cancel_right hsecond
  obtain rfl := List.append_cancel_right hthird
  obtain ⟨hopened, hcount⟩ := hrun (by simp [ds])
  obtain ⟨hopened', hcount'⟩ := hrun' (by simp [ds])
  obtain ⟨hunopened, hnothing, -⟩ := hlost (by simp [ds])
  exact ⟨hnoted, hopened, hcount, hopened', hcount', hunopened, hnothing⟩

end Scene
end HttpExchange
