/-
# Live handles are exact

A handle is claimed on the thread that starts a stream, the stream is registered
later by a queued task, and the handle is given back by whatever operation
retires the stream, while other threads start, terminate and restart. In every
order of their steps each live handle is held exactly once: by a start between
its claim and its answer, by a queued start, by a registered stream, or by the
release that a retiring operation owes (`Scene.Exact`). So no stream is ever
started twice, and a start is refused as a duplicate exactly when its handle is
held.

The invariant counts: how often a handle is live is how often it is held, so each
step has to balance its claims and releases only (`Scene.Orderly.of_balance`).

The client takes a stream out of its registry in the step in which it puts out
the last event, so here the release is owed while the application still answers
that event.

A start that the dispatcher leaves behind in its queue when it ends is never run,
and goes on holding its handle.

Key definitions: `Scene.claimed`, `Scene.queued`, `Scene.retiring`,
`Scene.registered`, `Scene.Exact`, `Call.Proper`, `Scene.Orderly`,
`Scene.StartsFairly`.
Key theorems: `Scene.orderly_step`, `Scene.live_handles_exact`.
-/
import HttpExchange.Proofs.Survival

namespace HttpExchange

/-! ### Who holds a handle -/

/-- The handle that a start holds between its claim and its answer. -/
def Stage.held : Stage → List Handle
  | .claimed h _ | .refused h _ => [h]
  | .begun _ | .done _ => []

/-- The handle held by a start that is under way in an application. -/
def Chore.held : Chore → List Handle
  | .call _ _ p => p.held
  | _ => []

/-- The handle that is yet to be given back. -/
def Chore.retiring : Chore → List Handle
  | .emit (.released h) => [h]
  | _ => []

/-- The handle that a task starts a stream under. -/
def Task.starts : Task → List Handle
  | .start h _ => [h]
  | _ => []

/-- The handles given back among outputs. -/
def Output.given : Output → List Handle
  | .released h => [h]
  | _ => []

/-- The keys of a dictionary. -/
def Dict.keys {κ ν : Type} (t : Dict κ ν) : List κ := t.entries.map Prod.fst

/-- The registered handles. -/
def Registry.handles {σ : Type} (r : Registry σ) : List Handle := r.opened.keys ++ r.closed.keys

theorem Dict.count_keys {κ ν : Type} [DecidableEq κ] (t : Dict κ ν) (k : κ) :
    t.keys.count k = if (t.find? k).isSome then 1 else 0 := by
  rw [keys, t.nodup.count]
  simp only [find?, lookupIn_isSome]

/-- A registered handle is registered once. -/
theorem Registry.count_handles {σ : Type} {r : Registry σ} (hr : r.Disjoint) (h : Handle) :
    r.handles.count h = if (r.lookup h).isSome then 1 else 0 := by
  have hd := hr h
  rw [handles, List.count_append, Dict.count_keys, Dict.count_keys]
  unfold lookup
  cases ho : r.opened.find? h <;> cases hc : r.closed.find? h <;> simp_all

/-! ### Operations of the client -/

namespace Client

variable {c d : Client} {op : Operation} {outs : List Output}

theorem given_answer (s : Stream) (a : Act) : (answer s a).flatMap Output.given =
    if (s.response.act a).disposition.isFinal then [s.id.handle] else [] := by
  have hcalls : (a.calls.map (.called s.id)).flatMap Output.given = [] := by
    rw [List.flatMap_map]
    exact List.flatMap_eq_nil_iff.mpr fun _ _ => rfl
  have htold : ((s.response.act a).events.map (.told s.id)).flatMap Output.given = [] := by
    rw [List.flatMap_map]
    exact List.flatMap_eq_nil_iff.mpr fun _ _ => rfl
  unfold answer
  dsimp only
  rw [List.flatMap_append, List.flatMap_append, hcalls, htold]
  split <;> rfl

/-- Where an operation leaves every other entry alone, only its own handle is to
be balanced. -/
theorem Puts.balance {c' : Client} {h : Handle} {e : Option (Registry.Bucket × Stream)}
    (hp : Puts c' h e d) (hs : c'.streams = c.streams) (hc : c.streams.Disjoint)
    {given : List Handle} (hgiven : given = if e.isSome then [] else [h])
    (hr : (c.entry h).isSome) (k : Handle) :
    given.count k + d.streams.handles.count k = c.streams.handles.count k := by
  have hk : d.streams.lookup k = if k = h then e else c.streams.lookup k := by
    have hk := hp.entry k
    unfold Client.entry at hk
    rwa [hs] at hk
  have hrk : (c.streams.lookup h).isSome := hr
  rw [Registry.count_handles hc, Registry.count_handles hp.disjoint, hk, hgiven]
  by_cases hkh : k = h
  · subst hkh
    rw [if_pos rfl, if_pos hrk]
    cases e <;> simp
  · rw [if_neg hkh]
    cases e <;> simp [Ne.symm hkh]

/-- An operation other than a start gives back the handle of the stream it
retires, and no other. -/
theorem Does.balance (hd : Does c op d outs) (hc : c.Sound) (hop : ∀ h, op ≠ .start h)
    (k : Handle) :
    (outs.flatMap Output.given).count k + d.streams.handles.count k =
      c.streams.handles.count k := by
  cases hd with
  | absent _ _ _ | unsent _ _ _ | ungranted _ | swept => simp
  | taken _ | started _ _ => exact absurd rfl (hop _)
  | sent _ _ _ _ he _ hp => exact hp.balance (c := c) rfl hc.disjoint rfl (by simp [he]) k
  | @cancelled h b s _ he hp =>
    refine hp.balance (c := c) rfl hc.disjoint ?_ (by simp [he]) k
    simp [Output.given, (hc.fits he).handle]
  | @answered _ h b s a _ _ _ he hp =>
    refine hp.balance (c := c) rfl hc.disjoint ?_ (by simp [he]) k
    rw [given_answer, (hc.fits he).handle, entryAfter]
    split <;> rfl

/-- A start registers its handle. -/
theorem balance_start (hc : c.Sound) (network : Network) {h : Handle} (he : c.entry h = none)
    (k : Handle) :
    (c.advance ⟨.start h, network⟩).1.streams.handles.count k =
      c.streams.handles.count k + [h].count k := by
  have hd := sound_advance hc ⟨.start h, network⟩
  have hentry : ∀ k, (c.advance ⟨.start h, network⟩).1.entry k =
      if k = h then some (.opened, c.fresh h) else c.entry k := by
    have hdoes := does_start hc.disjoint network h
    generalize c.advance ⟨.start h, network⟩ = r at hdoes
    obtain ⟨d, outs⟩ := r
    dsimp only at hdoes
    cases hdoes with
    | absent hh hs _ => cases hh; exact absurd rfl hs
    | taken ht => rw [he] at ht; cases ht
    | unsent _ hs _ => cases hs
    | started _ hp => exact hp.entry
    | sent _ _ _ hs _ _ _ => cases hs
    | answered _ ha _ _ => cases ha
  have hk := hentry k
  unfold entry at hk he
  rw [Registry.count_handles hc.disjoint, Registry.count_handles hd.disjoint, hk]
  by_cases hkh : k = h
  · simp [hkh, he]
  · simp [hkh, Ne.symm hkh]

theorem step_ok (c : Client) (network : Network) {op : Operation} (hop : ∀ h, op ≠ .start h) :
    c.step network op = .ok (c.advance ⟨op, network⟩) := by
  cases op with
  | start h => exact absurd rfl (hop h)
  | sendHeaders _ _ _ | sendData _ _ _ | sendTrailers _ _ | cancel _ | resume _ _
  | onHeaders _ _ _ | onData _ _ _ | onTrailers _ _ | onReset _ _ | sweep => rfl

end Client

/-! ### What may be handed to the engine -/

/-- A task that neither starts a stream, nor takes the live handles into its own
hands, nor gives up. -/
def Task.Plain : Task → Prop
  | .operate op => ∀ h, op ≠ .start h
  | .has _ | .terminate | .hold => True
  | .start _ _ | .claim _ | .release _ | .crash => False

mutual

/-- An application that starts streams through the engine only, and so do the
applications of these streams. -/
inductive Application.Proper : Application → Prop
  | mk {answers : List (EventKind × List (String × Call))} :
      (∀ a ∈ answers, ∀ b ∈ a.2, Call.Proper b.2) → Application.Proper (.mk answers)

/-- A call of such an application. -/
inductive Call.Proper : Call → Prop
  | enqueue {t : Task} : t.Plain → Call.Proper (.enqueue t)
  | init : Call.Proper .init
  | start {h : Handle} {app : Application} : Application.Proper app → Call.Proper (.start h app)
  | resume {h : Handle} {credit : Nat} : Call.Proper (.resume h credit)
  | setNetwork {n : Network} : Call.Proper (.setNetwork n)
  | network : Call.Proper .network
  | post {t : Task} : t.Plain → Call.Proper (.post t)

end

/-- A task as the engine queues it. -/
def Task.Proper : Task → Prop
  | .start _ app => app.Proper
  | t => t.Plain

/-- A stage of such a call. -/
def Stage.Proper : Stage → Prop
  | .begun c => c.Proper
  | .claimed _ app => app.Proper
  | .refused _ e => e = .terminated
  | .done _ => True

/-- A chore of such a task. -/
def Chore.Proper : Chore → Prop
  | .call _ _ p => p.Proper
  | .send t => t.Plain
  | _ => True

/-- Calls from outside are such calls. -/
def Scene.Action.Proper : Scene.Action → Prop
  | .call c => c.Proper
  | _ => True

theorem Application.Proper.answersTo {app : Application} (h : app.Proper) (k : EventKind) :
    ∀ a ∈ app.answersTo k, a.2.Proper := by
  cases h with
  | mk hanswers =>
    intro a ha
    obtain ⟨b, hb, hab⟩ := List.mem_flatMap.mp ha
    exact hanswers b (List.mem_filter.mp hb).1 a hab

theorem Task.Plain.proper {t : Task} (h : t.Plain) : t.Proper := by
  cases t with
  | start _ _ => cases h
  | operate _ | has _ | claim _ | release _ | crash | terminate | hold => exact h

theorem Task.Plain.starts {t : Task} (h : t.Plain) : t.starts = [] := by
  cases t with
  | start _ _ => cases h
  | operate _ | has _ | claim _ | release _ | crash | terminate | hold => rfl

/-- What an encoder sends starts no stream. -/
theorem plain_of_part (h : Handle) (part : ResponsePart) :
    (Task.operate (part.operation h)).Plain := by
  intro k
  cases part <;> simp [ResponsePart.operation]

theorem Call.Proper.task {c : Call} (h : c.Proper) {explicit : Bool} {t : Task}
    (ht : c.task? explicit = some t) : t.Plain := by
  cases h with
  | post hp => cases ht; exact hp
  | resume =>
    unfold Call.task? at ht
    dsimp only at ht
    split at ht
    · cases ht
      exact fun _ => nofun
    · cases ht
  | enqueue _ | init | start _ | setNetwork | network => cases ht

/-! ### Calls -/

theorem LiveSet.handles_claim {s t : LiveSet} {h : Handle} (ht : s.claim h = some t) :
    t.handles = h :: s.handles := by
  unfold claim at ht
  split at ht <;> cases ht
  rfl

/-- A handle that is live is so once, and not at all once it is given back. -/
theorem LiveSet.count_erase (s : LiveSet) {h : Handle} (hh : h ∈ s) (k : Handle) :
    (s.erase h).handles.count k + [h].count k = s.handles.count k := by
  have herase : (s.erase h).handles = s.handles.erase h := (s.nodup.erase_eq_filter h).symm
  rw [herase, List.count_erase, List.count_singleton]
  by_cases hk : h = k
  · subst hk
    have := List.count_pos_iff.mpr hh
    simp only [beq_self_eq_true, if_true]
    omega
  · simp [hk]

namespace Host

variable {v w : Host} {q q' : Stage} {ds : List Deed}

/-- Of a plain task that is handed in, none starts a stream. -/
theorem plain_accepted {t : Task} (ht : t.Plain) {d : Deed}
    (hd : Scene.accepted [d] = [t] ∨ Scene.accepted [d] = []) :
    (∀ u ∈ Scene.accepted [d], u.Proper) ∧ (Scene.accepted [d]).flatMap Task.starts = [] := by
  rcases hd with hd | hd <;> rw [hd]
  · exact ⟨by simpa using ht.proper, by simpa using ht.starts⟩
  · exact ⟨by simp, rfl⟩

theorem accepted_posted (t : Task) (s : Status) :
    Scene.accepted [.posted t s] = [t] ∨ Scene.accepted [.posted t s] = [] := by
  cases s with
  | ok _ => exact .inl rfl
  | error _ => exact .inr rfl

theorem accepted_sent (b : Bool) (t : Task) (s : Status) :
    Scene.accepted [.sent b t s] = [t] ∨ Scene.accepted [.sent b t s] = [] := by
  cases s with
  | ok _ => exact .inl rfl
  | error _ => exact .inr rfl

/-- A step of a call balances what it claims, hands over and gives back. -/
theorem Proceeds.balance (h : w.Proceeds q v q' ds) (hq : q.Proper)
    (hlive : ∀ k ∈ q.held, k ∈ w.live) :
    q'.Proper ∧ (∀ t ∈ Scene.accepted ds, t.Proper) ∧
      ∀ k, v.live.handles.count k + q.held.count k =
        w.live.handles.count k + q'.held.count k +
          ((Scene.accepted ds).flatMap Task.starts).count k := by
  cases h with
  | done | gone | duplicate _ => exact ⟨trivial, List.forall_mem_nil _, fun _ => rfl⟩
  | @claimed h app live hl =>
    cases hq with
    | start happ =>
      refine ⟨happ, List.forall_mem_nil _, fun k => ?_⟩
      simp only [Stage.held, LiveSet.handles_claim hl]
      rw [← List.singleton_append, List.count_append]
      simp only [Scene.accepted, List.filterMap_nil, List.flatMap_nil, List.count_nil]
      omega
  | quiet _ hv =>
    rw [hv]
    exact ⟨trivial, List.forall_mem_nil _, fun _ => rfl⟩
  | posted ht =>
    obtain ⟨hp, hs⟩ := plain_accepted (Call.Proper.task hq ht) (accepted_posted _ _)
    exact ⟨trivial, hp, fun k => by rw [hs]; rfl⟩
  | enqueued t =>
    cases hq with
    | enqueue ht =>
      obtain ⟨hp, hs⟩ := plain_accepted ht (accepted_sent true t (w.enqueue t).2)
      refine ⟨trivial, hp, fun k => ?_⟩
      rw [hs]
      unfold enqueue
      split <;> rfl
  | @accepted h app _ =>
    refine ⟨trivial, fun t ht => ?_, fun k => rfl⟩
    obtain rfl : t = .start h app := by simpa [Scene.accepted, Scene.accepted?] using ht
    exact hq
  | turnedDown _ => exact ⟨rfl, List.forall_mem_nil _, fun _ => rfl⟩
  | givenBack h e =>
    refine ⟨trivial, List.forall_mem_nil _, fun k => ?_⟩
    exact w.live.count_erase (hlive h List.mem_cons_self) k

theorem Proceeds.keeps (h : w.Proceeds q v q' ds) :
    v.client = w.client ∧ v.applications = w.applications ∧ v.onThread = w.onThread ∧
      v.attached = w.attached := by
  rw [h.frame]
  exact ⟨rfl, rfl, rfl, rfl⟩

end Host

/-! ### Scenes -/

namespace Scene

/-- The handles of starts that have claimed them and have not come back: those
not yet handed in, and those refused and not yet given back. -/
def claimed (s : Scene) : List Handle :=
  s.callers.flatMap Stage.held ++ s.agenda.flatMap Chore.held

/-- The handles of starts that were accepted and have not been run: they are queued
or, once the dispatcher has left its loop, lost. -/
def queued (s : Scene) : List Handle := s.backlog.flatMap Task.starts

/-- The handles that a retiring operation has taken from the registry and is yet
to give back. -/
def retiring (s : Scene) : List Handle := s.agenda.flatMap Chore.retiring

/-- The handles registered in the client. -/
def registered (s : Scene) : List Handle := s.engine.host.client.streams.handles

/-- Whoever holds a handle, each as often as it does. -/
def holders (s : Scene) : List Handle := s.claimed ++ s.queued ++ s.retiring ++ s.registered

/-- The live handles are the handles that are held, each held once. -/
def Exact (s : Scene) : Prop := s.engine.host.live.handles.Perm s.holders

/-- What holds of every scene as long as streams are started through the engine
only. -/
structure Orderly (s : Scene) : Prop where
  wired : s.Wired
  sound : s.engine.host.client.Sound
  onThread : s.engine.host.onThread = true
  attached : s.engine.host.attached = true
  tasks : ∀ t ∈ s.backlog, t.Proper
  applications : ∀ n app, s.engine.host.applications.find? n = some app → app.Proper
  callers : ∀ p ∈ s.callers, p.Proper
  agenda : ∀ c ∈ s.agenda, c.Proper
  exact : s.Exact

variable {s r : Scene} {ds : List Deed}

theorem exact_iff : s.Exact ↔ ∀ k, s.engine.host.live.handles.count k =
    s.claimed.count k + s.queued.count k + s.retiring.count k + s.registered.count k := by
  unfold Exact holders
  simp only [List.perm_iff_count, List.count_append]

theorem mem_live_iff (h : s.Exact) (k : Handle) : k ∈ s.engine.host.live ↔ k ∈ s.holders :=
  h.mem_iff

/-- A handle has one holder at most. -/
theorem Exact.once (h : s.Exact) (k : Handle) :
    s.claimed.count k + s.queued.count k + s.retiring.count k + s.registered.count k ≤ 1 := by
  rw [← exact_iff.mp h k]
  exact List.nodup_iff_count.mp s.engine.host.live.nodup k

theorem mem_live_of_claimed (h : s.Exact) {k : Handle} (hk : k ∈ s.claimed) :
    k ∈ s.engine.host.live := by
  rw [mem_live_iff h]
  simp [holders, hk]

/-- The work that flows through a step brings the starts in the backlog along. -/
theorem Carries.queued (hc : Carries s (r, ds)) (k : Handle) :
    s.queued.count k + ((accepted ds).flatMap Task.starts).count k =
      ((ran ds).flatMap Task.starts).count k + r.queued.count k := by
  have hflow := congrArg (fun ts => (ts.flatMap Task.starts).count k) hc.flow
  simp only [List.flatMap_append, List.count_append] at hflow
  exact hflow

theorem Carries.tasks (hc : Carries s (r, ds)) (hs : ∀ t ∈ s.backlog, t.Proper)
    (ha : ∀ t ∈ accepted ds, t.Proper) : ∀ t ∈ r.backlog, t.Proper := by
  intro t ht
  have hmem : t ∈ s.backlog ++ accepted ds := by
    rw [hc.flow]
    exact List.mem_append_right _ ht
  exact (List.mem_append.mp hmem).elim (hs t) (ha t)

/-- A step keeps the live handles exact if its claims and releases balance: what
it makes live is what it comes to hold, beside the queue. -/
theorem Exact.of_balance (h : s.Exact) (hc : Carries s (r, ds))
    (hbalance : ∀ k, r.engine.host.live.handles.count k + s.claimed.count k + s.retiring.count k +
        s.registered.count k + ((ran ds).flatMap Task.starts).count k =
      s.engine.host.live.handles.count k + r.claimed.count k + r.retiring.count k +
        r.registered.count k + ((accepted ds).flatMap Task.starts).count k) : r.Exact := by
  rw [exact_iff] at h ⊢
  intro k
  have hk := h k
  have hq := hc.queued k
  have hb := hbalance k
  omega

/-- `r` is `s` but for what no handle depends on. -/
structure Alike (s r : Scene) : Prop where
  live : r.engine.host.live = s.engine.host.live
  streams : r.engine.host.client.streams = s.engine.host.client.streams
  sound : r.engine.host.client.Sound
  onThread : r.engine.host.onThread = s.engine.host.onThread
  attached : r.engine.host.attached = s.engine.host.attached
  applications : r.engine.host.applications = s.engine.host.applications
  held : r.claimed = s.claimed
  retiring : r.retiring = s.retiring
  callers : ∀ p ∈ r.callers, p.Proper
  agenda : ∀ c ∈ r.agenda, c.Proper

theorem Orderly.alike (hs : s.Orderly) (hc : Carries s (r, ds)) (h : Alike s r)
    (ha : (∀ t ∈ accepted ds, t.Proper) ∧ (accepted ds).flatMap Task.starts = [])
    (hr : (ran ds).flatMap Task.starts = []) : r.Orderly where
  wired := hc.wired
  sound := h.sound
  onThread := h.onThread.trans hs.onThread
  attached := h.attached.trans hs.attached
  tasks := hc.tasks hs.tasks ha.1
  applications := h.applications ▸ hs.applications
  callers := h.callers
  agenda := h.agenda
  exact := hs.exact.of_balance hc fun k => by
    unfold registered
    rw [h.live, h.held, h.retiring, h.streams, ha.2, hr]

/-- A step that leaves the host alone but for its queues. -/
theorem Orderly.host_alike (hs : s.Orderly) {w : Host} {e : Engine}
    (hw : w = { s.engine.host with intake := w.intake }) (he : e.host = w) {n : Nat} {b : Bool}
    {ts : List Task} :
    Alike s { s with engine := e, leaving := n, listening := b, stranded := ts } := by
  subst he
  refine ⟨?_, ?_, ?_, ?_, ?_, ?_, rfl, rfl, hs.callers, hs.agenda⟩
  case refine_3 => rw [hw]; exact hs.sound
  all_goals rw [hw]

/-- Only a task that is taken up can take the dispatcher down. -/
theorem not_faulted {a : Action} (ha : a ≠ .look) (f : Fault) : .faulted f ∉ (s.step a).2 := by
  intro hd
  rcases deed_cases hd with ⟨p, w, q, ds, -, hproceeds, hd⟩ | ⟨h, -⟩ | hd | ⟨b, t, st, h⟩ | h
  · cases hproceeds <;> simp at hd
  · exact ha h
  · rcases s.listen_cases with h | ⟨-, h | ⟨-, h⟩⟩ <;> simp [h] at hd
  · cases h
  · cases h

theorem orderly_call (hs : s.Orderly) {c : Call} (hc : c.Proper) :
    (s.step (.call c)).1.Orderly := by
  have begun : Alike s { s with callers := s.callers ++ [.begun c] } := by
    refine ⟨rfl, rfl, hs.sound, rfl, rfl, rfl, ?_, rfl, fun p hp => ?_, hs.agenda⟩
    · unfold claimed
      simp [Stage.held]
    · rcases List.mem_append.mp hp with hp | hp
      · exact hs.callers p hp
      · obtain rfl := List.mem_singleton.mp hp
        exact hc
  have hcarries := carries_call hs.wired c
  cases c with
  | enqueue t => exact hs
  | init | start _ _ | resume _ _ | setNetwork _ | network | post _ =>
    exact hs.alike hcarries begun ⟨nofun, rfl⟩ rfl

/-- Replacing one stage replaces what it holds. -/
theorem count_set (f : Stage → List Handle) (k : Handle) {ps : List Stage} {n : Nat} {p : Stage}
    (hp : ps[n]? = some p) (q : Stage) :
    ((ps.set n q).flatMap f).count k + (f p).count k =
      (ps.flatMap f).count k + (f q).count k := by
  induction ps generalizing n with
  | nil => cases hp
  | cons a ps ih =>
    cases n with
    | zero =>
      obtain rfl : a = p := by simpa using hp
      simp only [List.set_cons_zero, List.flatMap_cons, List.count_append]
      omega
    | succ n =>
      have hn := ih (n := n) (by simpa using hp)
      simp only [List.set_cons_succ, List.flatMap_cons, List.count_append]
      omega

theorem orderly_proceed (hs : s.Orderly) (n : Nat) : (s.step (.proceed n)).1.Orderly := by
  have hcarries := carries_proceed hs.wired n
  unfold step at hcarries ⊢
  dsimp only at hcarries ⊢
  split
  · exact hs
  · rename_i q hq
    rw [hq] at hcarries
    dsimp only at hcarries
    have hmem : q ∈ s.callers := List.mem_of_getElem? hq
    have hp := s.engine.host.proceeds q
    obtain ⟨hclient, happs, hthread, hattached⟩ := hp.keeps
    obtain ⟨hproper, haccepted, hbalance⟩ := hp.balance (hs.callers q hmem) fun k hk =>
      mem_live_of_claimed hs.exact
        (List.mem_append_left _ (List.mem_flatMap_of_mem hmem hk))
    exact {
      wired := hcarries.wired
      sound := by rw [hclient]; exact hs.sound
      onThread := hthread.trans hs.onThread
      attached := hattached.trans hs.attached
      tasks := hcarries.tasks hs.tasks haccepted
      applications := by rw [happs]; exact hs.applications
      callers := fun p hp => (List.mem_or_eq_of_mem_set hp).elim (hs.callers p) (· ▸ hproper)
      agenda := hs.agenda
      exact := hs.exact.of_balance hcarries fun k => by
        have hidle := (hp.takes hs.wired.intake fun _ t h => hs.wired.facade t (h ▸ hmem)).idle
        have hset := count_set Stage.held k hq (s.engine.host.proceed q).2.1
        have hk := hbalance k
        unfold claimed retiring registered
        simp only [hclient, hidle, List.count_append, List.flatMap_nil, List.count_nil]
        omega }

theorem orderly_encode (hs : s.Orderly) (h : Handle) (part : ResponsePart) :
    (s.step (.encode h part)).1.Orderly := by
  have hcarries := carries_encode hs.wired h part
  unfold step Host.encode at hcarries ⊢
  dsimp only at hcarries ⊢
  cases hl : s.engine.host.pipeline.latest.contains h with
  | false => exact hs
  | true =>
    rw [hl] at hcarries
    exact hs.alike hcarries (hs.host_alike (Host.enqueue_eq _ _) rfl)
      (Host.plain_accepted (plain_of_part h part) (Host.accepted_sent _ _ _)) rfl

/-- Termination, and what the dispatcher does beside its tasks, reach nothing but
the queues, the phase and the signal. -/
theorem orderly_quiet (hs : s.Orderly) {a : Action}
    (ha : a = .refuse ∨ a = .signal ∨ a = .construct ∨ a = .install ∨ a = .letGo) :
    (s.step a).1.Orderly := by
  have hlook : a ≠ .look := by rcases ha with rfl | rfl | rfl | rfl | rfl <;> simp
  have hc := carries_step hs.wired a (not_faulted hlook)
  have hstep : ∃ e n, (s.step a).1 = { s with engine := e, leaving := n } ∧
      e.host = { s.engine.host with intake := e.host.intake } ∧
      accepted (s.step a).2 = [] ∧ ran (s.step a).2 = [] := by
    rcases ha with rfl | rfl | rfl | rfl | rfl
    · exact ⟨_, _, rfl, rfl, rfl, rfl⟩
    all_goals
      unfold step
      dsimp only
      split <;> exact ⟨_, _, rfl, rfl, rfl, rfl⟩
  obtain ⟨e, n, hr, he, hacc, hran⟩ := hstep
  generalize s.step a = r at hc hr hacc hran
  obtain ⟨r, ds⟩ := r
  dsimp only at hr hacc hran ⊢
  subst hr
  exact hs.alike hc (hs.host_alike he rfl) (by rw [hacc]; exact ⟨nofun, rfl⟩) (by rw [hran]; rfl)

/-- What applications and the pipeline make of an output holds nothing. -/
theorem unpack_plain {w : Host} (hw : ∀ n app, w.applications.find? n = some app → app.Proper)
    (o : Output) : ∀ c ∈ (w.unpack o).2, c.Proper ∧ c.held = [] ∧ c.retiring = [] := by
  intro c hc
  cases o with
  | opened | released => cases hc
  | told id x =>
    unfold Host.unpack at hc
    dsimp only at hc
    split at hc
    · cases hc
    · rename_i app happ
      obtain ⟨a, ha, rfl⟩ := List.mem_map.mp hc
      exact ⟨(hw _ _ happ).answersTo _ a ha, rfl, rfl⟩
  | called id x =>
    obtain ⟨p, -, rfl⟩ := List.mem_map.mp hc
    exact ⟨plain_of_part _ _, rfl, rfl⟩

/-- A chore that releases nothing, and what is left to do in its place. -/
theorem Orderly.chore_alike (hs : s.Orderly) {c : Chore} {rest cs : List Chore}
    (ha : s.agenda = c :: rest) (hheld : c.held = []) (hret : c.retiring = [])
    (hcs : ∀ c ∈ cs, c.Proper ∧ c.held = [] ∧ c.retiring = []) {e : Engine}
    (hw : e.host.live = s.engine.host.live ∧ e.host.applications = s.engine.host.applications ∧
      e.host.onThread = s.engine.host.onThread ∧ e.host.attached = s.engine.host.attached)
    (hstreams : e.host.client.streams = s.engine.host.client.streams)
    (hsound : e.host.client.Sound) : Alike s { s with engine := e, agenda := cs ++ rest } := by
  have hflat (f : Chore → List Handle) (hf : ∀ c ∈ cs, f c = []) : cs.flatMap f = [] :=
    List.flatMap_eq_nil_iff.mpr hf
  refine ⟨hw.1, hstreams, hsound, hw.2.2.1, hw.2.2.2, hw.2.1, ?_, ?_, hs.callers, fun c' hc' => ?_⟩
  · unfold claimed
    rw [ha, List.flatMap_append, hflat _ fun c hc => (hcs c hc).2.1, List.flatMap_cons, hheld]
  · unfold retiring
    rw [ha, List.flatMap_append, hflat _ fun c hc => (hcs c hc).2.2, List.flatMap_cons, hret]
  · rcases List.mem_append.mp hc' with h | h
    · exact (hcs c' h).1
    · exact hs.agenda c' (ha ▸ List.mem_cons_of_mem c h)

theorem retired_released {c : Chore} {rest : List Chore} (ha : s.agenda = c :: rest) :
    s.claimed = s.callers.flatMap Stage.held ++ (c.held ++ rest.flatMap Chore.held) ∧
      s.retiring = c.retiring ++ rest.flatMap Chore.retiring := by
  unfold claimed retiring
  rw [ha]
  exact ⟨rfl, rfl⟩

/-- A release that takes effect gives back what the retiring operation owed. -/
theorem orderly_release (hs : s.Orderly) {h : Handle} {rest : List Chore}
    (ha : s.agenda = .emit (.released h) :: rest)
    (hc : Carries s ({ s with
      engine := { s.engine with
        host := { s.engine.host with live := s.engine.host.live.erase h } }
      agenda := rest }, [])) :
    Orderly { s with
      engine := { s.engine with
        host := { s.engine.host with live := s.engine.host.live.erase h } }
      agenda := rest } where
  wired := hc.wired
  sound := hs.sound
  onThread := hs.onThread
  attached := hs.attached
  tasks := hs.tasks
  applications := hs.applications
  callers := hs.callers
  agenda c hc := hs.agenda c (ha ▸ List.mem_cons_of_mem _ hc)
  exact := hs.exact.of_balance hc fun k => by
    have hlive : h ∈ s.engine.host.live := by
      rw [mem_live_iff hs.exact]
      simp [holders, retiring, ha, Chore.retiring]
    have herase := s.engine.host.live.count_erase hlive k
    obtain ⟨hclaimed, hretiring⟩ := retired_released ha
    rw [hclaimed, hretiring]
    unfold claimed retiring registered
    simp only [Chore.held, Chore.retiring, List.count_append, List.nil_append, accepted, ran,
      List.filterMap_nil, List.flatMap_nil, List.count_nil]
    omega

/-- What is left of a call holds what its stage holds. -/
theorem toChores_held (h : Handle) (label : String) (q : Stage) :
    (q.toChores h label).flatMap Chore.held = q.held ∧
      (q.toChores h label).flatMap Chore.retiring = [] := by
  cases q <;> exact ⟨rfl, rfl⟩

theorem toChores_proper {h : Handle} {label : String} {q : Stage} (hq : q.Proper) :
    ∀ c ∈ q.toChores h label, c.Proper := by
  intro c hc
  cases q with
  | done a => cases hc
  | begun _ | claimed _ _ | refused _ _ =>
    obtain rfl := List.mem_singleton.mp hc
    exact hq

/-- A call of an application that takes its next step. -/
theorem orderly_chore_call (hs : s.Orderly) {h : Handle} {label : String} {q : Stage}
    {rest : List Chore} (ha : s.agenda = .call h label q :: rest)
    (hc : Carries s ({ s with
      engine := (s.engine.attend (.call h label q)).1
      agenda := (s.engine.attend (.call h label q)).2.1 ++ rest },
      (s.engine.attend (.call h label q)).2.2)) :
    Orderly { s with
      engine := (s.engine.attend (.call h label q)).1
      agenda := (s.engine.attend (.call h label q)).2.1 ++ rest } := by
  have hq : (Chore.call h label q).Proper := hs.agenda _ (ha ▸ List.mem_cons_self)
  have hp := s.engine.host.proceeds q
  have hb : s.engine.phase ≠ .building := fun hb => by
    have := hs.wired.idle (by simp [hb])
    rw [ha] at this
    cases this
  obtain ⟨hclient, happs, hthread, hattached⟩ := hp.keeps
  obtain ⟨hclaimed, hretiring⟩ := retired_released ha
  obtain ⟨hproper, haccepted, hbalance⟩ := hp.balance hq fun k hk =>
    mem_live_of_claimed hs.exact (by simp [hclaimed, Chore.held, hk])
  have hidle := (hp.takes hs.wired.intake fun h => absurd h hb).idle
  obtain ⟨hheld, hret⟩ := toChores_held h label (s.engine.host.proceed q).2.1
  dsimp only [Engine.attend] at hc ⊢
  rw [Host.conclude_eq] at hc ⊢
  exact {
    wired := hc.wired
    sound := by simp only [hclient]; exact hs.sound
    onThread := hthread.trans hs.onThread
    attached := hattached.trans hs.attached
    tasks := hc.tasks hs.tasks haccepted
    applications := by simp only [happs]; exact hs.applications
    callers := hs.callers
    agenda := fun c hc => (List.mem_append.mp hc).elim (toChores_proper hproper c) fun h =>
      hs.agenda c (ha ▸ List.mem_cons_of_mem _ h)
    exact := hs.exact.of_balance hc fun k => by
      have hk := hbalance k
      rw [hclaimed, hretiring]
      unfold claimed retiring registered
      simp only [hclient, hidle, List.flatMap_append, hheld, hret, List.count_append,
        List.flatMap_nil, List.count_nil, List.nil_append, Chore.held, Chore.retiring]
      omega }

theorem orderly_chore (hs : s.Orderly) : (s.step .chore).1.Orderly := by
  have hcarries := carries_chore hs.wired
  unfold step at hcarries ⊢
  dsimp only at hcarries ⊢
  split
  · exact hs
  · rename_i c rest ha
    rw [ha] at hcarries
    dsimp only at hcarries
    have hc : c.Proper := hs.agenda c (ha ▸ List.mem_cons_self)
    have alike {cs : List Chore} (hheld : c.held = []) (hret : c.retiring = [])
        (hcs : ∀ c ∈ cs, c.Proper ∧ c.held = [] ∧ c.retiring = []) {e : Engine}
        (hw : e.host.live = s.engine.host.live ∧
          e.host.applications = s.engine.host.applications ∧
          e.host.onThread = s.engine.host.onThread ∧ e.host.attached = s.engine.host.attached)
        (hclient : e.host.client = s.engine.host.client) :
        Alike s { s with engine := e, agenda := cs ++ rest } :=
      hs.chore_alike ha hheld hret hcs hw (by rw [hclient]) (by rw [hclient]; exact hs.sound)
    have nothing : ∀ c ∈ ([] : List Chore), c.Proper ∧ c.held = [] ∧ c.retiring = [] := nofun
    cases c with
    | emit o =>
      cases o with
      | released h => exact orderly_release hs ha hcarries
      | opened id =>
        exact hs.alike hcarries (alike rfl rfl nothing ⟨rfl, rfl, rfl, rfl⟩ rfl) ⟨nofun, rfl⟩ rfl
      | told id x | called id x =>
        exact hs.alike hcarries
          (alike rfl rfl (unpack_plain hs.applications _) ⟨rfl, rfl, rfl, rfl⟩ rfl) ⟨nofun, rfl⟩ rfl
    | call h label q => exact orderly_chore_call hs ha hcarries
    | send t =>
      have hw : (s.engine.attend (.send t)).1.host = _ := Host.enqueue_eq s.engine.host t
      refine hs.alike hcarries (alike rfl rfl nothing ?_ ?_)
        (Host.plain_accepted hc (Host.accepted_sent _ _ _)) rfl
      · rw [hw]
        exact ⟨rfl, rfl, rfl, rfl⟩
      · rw [hw]
    | sweep =>
      have hsound : s.engine.host.swept.client.Sound :=
        Client.sound_advance hs.sound ⟨.sweep, s.engine.host.network⟩
      exact hs.alike hcarries
        (hs.chore_alike ha rfl rfl nothing (e := { s.engine with host := s.engine.host.swept })
          ⟨rfl, rfl, rfl, rfl⟩ rfl hsound) ⟨nofun, rfl⟩ rfl
    | terminate =>
      refine hs.alike hcarries (alike rfl rfl (fun c hc => ?_) ⟨rfl, rfl, rfl, rfl⟩ rfl)
        ⟨nofun, rfl⟩ rfl
      obtain rfl := List.mem_singleton.mp hc
      exact ⟨trivial, rfl, rfl⟩
    | signal =>
      exact hs.alike hcarries (alike rfl rfl nothing ⟨rfl, rfl, rfl, rfl⟩ rfl) ⟨nofun, rfl⟩ rfl

/-- What is released among outputs is what is retiring among their chores. -/
theorem retiring_emits (outs : List Output) :
    (outs.map Chore.emit).flatMap Chore.retiring = outs.flatMap Output.given := by
  rw [List.flatMap_map]
  congr 1
  funext o
  cases o <;> rfl

theorem emits_plain (outs : List Output) :
    (∀ c ∈ outs.map Chore.emit, c.Proper) ∧ (outs.map Chore.emit).flatMap Chore.held = [] := by
  rw [List.flatMap_map]
  refine ⟨fun c hc => ?_, List.flatMap_eq_nil_iff.mpr fun _ _ => rfl⟩
  obtain ⟨o, -, rfl⟩ := List.mem_map.mp hc
  trivial

/-- What a task that has begun left of the host, and what it is yet to do: the
registered handles and those retiring are the ones registered before, and the one
it started. -/
structure Begun (w : Host) (t : Task) (v : Host) (chores : List Chore) : Prop where
  live : v.live = w.live
  sound : v.client.Sound
  onThread : v.onThread = w.onThread
  attached : v.attached = w.attached
  applications : ∀ n app, v.applications.find? n = some app → app.Proper
  proper : ∀ c ∈ chores, c.Proper
  held : chores.flatMap Chore.held = []
  balance : ∀ k, v.client.streams.handles.count k + (chores.flatMap Chore.retiring).count k =
    w.client.streams.handles.count k + t.starts.count k

theorem launch_of_step {w : Host} (hw : w.onThread = true) {op : Operation}
    (hop : w.client.step w.network op = .ok (w.client.advance ⟨op, w.network⟩)) :
    w.launch op = .ok ({ w with client := (w.client.advance ⟨op, w.network⟩).1 },
      (w.client.advance ⟨op, w.network⟩).2.map .emit) := by
  unfold Host.launch
  rw [hop, hw]
  rfl

/-- A task goes through if the handle it starts a stream under is not registered. -/
theorem begun_of_proper {w : Host} (hw : w.client.Sound) (hon : w.onThread = true)
    (happs : ∀ n app, w.applications.find? n = some app → app.Proper) {t : Task} (ht : t.Proper)
    (hfree : ∀ h ∈ t.starts, w.client.entry h = none) :
    ∃ v chores, w.begin t = .ok (v, chores) ∧ Begun w t v chores := by
  have nothing (hb : w.begin t = .ok (w, [])) (hs : t.starts = []) :
      ∃ v chores, w.begin t = .ok (v, chores) ∧ Begun w t v chores :=
    ⟨w, [], hb, rfl, hw, rfl, rfl, happs, nofun, rfl, fun k => by rw [hs]; rfl⟩
  cases t with
  | start h app =>
    have he := hfree h List.mem_cons_self
    have hsound := Client.sound_advance hw ⟨.start h, w.network⟩
    have hstep : w.client.step w.network (.start h) =
        .ok (w.client.advance ⟨.start h, w.network⟩) := by
      obtain ⟨r, -, hr⟩ := Client.start_unregistered he
      unfold Client.advance
      rw [show w.client.step w.network (.start h) = _ from hr]
    have hlaunch := launch_of_step
      (w := { w with applications := w.applications.insert w.client.nextSerial app }) hon hstep
    have hgiven : (w.client.advance ⟨.start h, w.network⟩).2.flatMap Output.given = [] := by
      obtain ⟨r, -, hr⟩ := Client.start_unregistered he
      unfold Client.advance
      rw [show w.client.step w.network (.start h) = _ from hr]
      rfl
    refine ⟨_, _, hlaunch, rfl, hsound, rfl, rfl, fun n a ha => ?_, (emits_plain _).1,
      (emits_plain _).2, fun k => ?_⟩
    · change (w.applications.insert w.client.nextSerial app).find? n = some a at ha
      rw [Dict.find?_insert] at ha
      split at ha
      · cases ha
        exact ht
      · exact happs n a ha
    · rw [retiring_emits]
      have hbal := Client.balance_start hw w.network he k
      change (w.client.advance ⟨.start h, w.network⟩).1.streams.handles.count k + _ = _
      rw [hbal]
      change _ + ((w.client.advance ⟨.start h, w.network⟩).2.flatMap Output.given).count k = _
      rw [hgiven]
      rfl
  | operate op =>
    have hstep : w.client.step w.network op = _ := w.client.step_ok w.network ht
    have hdoes := Client.does_advance hw.disjoint ⟨op, w.network⟩
    refine ⟨_, _, launch_of_step hon hstep, rfl, Client.sound_advance hw _, rfl, rfl, happs,
      (emits_plain _).1, (emits_plain _).2, fun k => ?_⟩
    rw [retiring_emits, Nat.add_comm]
    exact hdoes.balance hw ht k
  | has _ | terminate | hold => exact nothing rfl rfl
  | claim _ | release _ | crash => cases ht

/-- A handle that a queued start holds is not registered, since it is held once. -/
theorem Orderly.unregistered (hs : s.Orderly) {t : Task} (ht : t ∈ s.backlog) {h : Handle}
    (hh : h ∈ t.starts) : s.engine.host.client.entry h = none := by
  have hq : 0 < s.queued.count h := List.count_pos_iff.mpr (List.mem_flatMap_of_mem ht hh)
  have honce := hs.exact.once h
  have hreg := Registry.count_handles hs.sound.disjoint h
  unfold registered at honce
  cases he : s.engine.host.client.entry h with
  | none => rfl
  | some e =>
    unfold Client.entry at he
    rw [he, Option.isSome_some, if_pos rfl] at hreg
    omega

/-- What a task that has begun is yet to do holds what the task has taken from the queue. -/
theorem orderly_begun (hs : s.Orderly) (ha : s.agenda = []) {i : Intake Task} {t : Task}
    {v : Host} {chores : List Chore}
    (hb : Begun { s.engine.host with intake := i } t v chores)
    (hc : Carries s ({ s with
      engine := { s.engine with host := v }
      agenda := chores ++ [.sweep] }, [.ran t])) :
    Orderly { s with
      engine := { s.engine with host := v }
      agenda := chores ++ [.sweep] } where
  wired := hc.wired
  sound := hb.sound
  onThread := hb.onThread.trans hs.onThread
  attached := hb.attached.trans hs.attached
  tasks := hc.tasks hs.tasks (List.forall_mem_nil _)
  applications := hb.applications
  callers := hs.callers
  agenda c hmem := (List.mem_append.mp hmem).elim (hb.proper c) fun hsweep => by
    obtain rfl := List.mem_singleton.mp hsweep
    trivial
  exact := hs.exact.of_balance hc fun k => by
    have hk := hb.balance k
    have hlive := hb.live
    unfold claimed retiring registered
    simp only [ha, hlive, List.flatMap_append, hb.held, List.flatMap_nil, List.flatMap_cons,
      Chore.held, Chore.retiring, List.append_nil, accepted, ran, List.filterMap_cons, accepted?,
      ran?, List.filterMap_nil, List.count_nil]
    dsimp only at hk
    omega

/-- A task that is taken up is begun, since its handle is held by nobody else. -/
theorem orderly_take (hs : s.Orderly) (hp : s.engine.phase = .serving) (ha : s.agenda = [])
    (hl : s.listening = false) {t : Task} {i : Intake Task} (hn : s.engine.host.intake.next? 0 = some (t, i))
    {s' : Scene} (hs' : s' = { s with engine := { s.engine with
      host := { s.engine.host with intake := i } } }) :
    (∀ f, .faulted f ∉ (s'.take t).2) ∧ (s'.take t).1.Orderly := by
  have hfirst : s.backlog = t :: i.backlog := by
    have hw : Intake.Wired .serving s.engine.host.intake := hp ▸ hs.wired.intake
    unfold backlog
    rw [hs.wired.stranded (by simp [hp]), (hw.next hn).2.1]
    rfl
  have hmem : t ∈ s.backlog := hfirst ▸ List.mem_cons_self
  obtain ⟨v, chores, hbegin, hbegun⟩ := begun_of_proper
    (w := { s.engine.host with intake := i }) hs.sound hs.onThread hs.applications
    (hs.tasks t hmem) fun _ hh => hs.unregistered hmem hh
  have hcarries := carries_take hs.wired hp ha hl hn hs'
  rcases take_cases s' t with ⟨rfl, h⟩ | ⟨rfl, h⟩ | ⟨v', chores', hb, h⟩ | ⟨f, hb, h⟩
  · rw [h] at hcarries ⊢
    have halike : Alike s { s' with engine := { s'.engine with phase := .held } } := by
      subst hs'
      exact hs.host_alike (w := { s.engine.host with intake := i }) rfl rfl
    exact ⟨by simp, hs.alike (hcarries (by simp)) halike ⟨nofun, rfl⟩ rfl⟩
  · rw [h] at hcarries ⊢
    have halike : Alike s { s' with agenda := [.terminate] } := by
      subst hs'
      refine ⟨rfl, rfl, hs.sound, rfl, rfl, rfl, ?_, ?_, hs.callers, fun c hc => ?_⟩
      · unfold claimed
        rw [ha]
        rfl
      · unfold retiring
        rw [ha]
        rfl
      · obtain rfl := List.mem_singleton.mp hc
        trivial
    exact ⟨by simp, hs.alike (hcarries (by simp)) halike ⟨nofun, rfl⟩ rfl⟩
  · rw [h] at hcarries ⊢
    subst hs'
    rw [hbegin, Except.ok.injEq, Prod.mk.injEq] at hb
    obtain ⟨rfl, rfl⟩ := hb
    exact ⟨by simp, orderly_begun hs ha hbegun (hcarries (by simp))⟩
  · subst hs'
    rw [hbegin] at hb
    cases hb

theorem orderly_look (hs : s.Orderly) : (∀ f, .faulted f ∉ s.look.2) ∧ s.look.1.Orderly := by
  rcases s.look_cases with h | ⟨ha, hp, hl, ⟨t, i, hn, h⟩ | ⟨hn, h⟩⟩
  · rw [h]
    exact ⟨nofun, hs⟩
  · rw [h]
    exact orderly_take hs hp ha hl hn rfl
  · rw [h]
    exact ⟨by simp, hs.alike (carries_found hs.wired hp ha hn) (hs.host_alike rfl rfl)
      ⟨nofun, rfl⟩ rfl⟩

theorem orderly_listen (hs : s.Orderly) : s.listen.1.Orderly := by
  rcases s.listen_cases with h | ⟨hl, h | ⟨hsig, h⟩⟩
  · rw [h]
    exact hs
  · rw [h]
    exact hs.alike (carries_back hs.wired) (hs.host_alike rfl rfl) ⟨nofun, rfl⟩ rfl
  · rw [h]
    exact hs.alike (carries_exit hs.wired hl hsig) (hs.host_alike rfl rfl) ⟨nofun, rfl⟩ rfl

/-- Whatever is done, the live handles stay exact, and nothing takes the
dispatcher down. -/
theorem orderly_step (hs : s.Orderly) {a : Action} (ha : a.Proper) :
    (∀ f, .faulted f ∉ (s.step a).2) ∧ (s.step a).1.Orderly := by
  cases a with
  | look => exact orderly_look hs
  | listen => exact ⟨not_faulted (by simp), orderly_listen hs⟩
  | call c => exact ⟨not_faulted (by simp), orderly_call hs ha⟩
  | proceed n => exact ⟨not_faulted (by simp), orderly_proceed hs n⟩
  | refuse | signal | construct | install | letGo =>
    exact ⟨not_faulted (by simp), orderly_quiet hs (by simp)⟩
  | chore => exact ⟨not_faulted (by simp), orderly_chore hs⟩
  | encode h part => exact ⟨not_faulted (by simp), orderly_encode hs h part⟩

theorem orderly_after (hs : s.Orderly) {as : List Action} (has : ∀ a ∈ as, a.Proper) :
    (∀ f, .faulted f ∉ s.deeds as) ∧ (s.after as).Orderly := by
  induction as generalizing s with
  | nil => exact ⟨nofun, hs⟩
  | cons a as ih =>
    obtain ⟨hf, ho⟩ := orderly_step hs (has a List.mem_cons_self)
    obtain ⟨hfs, hos⟩ := ih ho fun b hb => has b (List.mem_cons_of_mem a hb)
    refine ⟨fun f hmem => ?_, hos⟩
    rcases List.mem_append.mp hmem with h | h
    · exact hf f h
    · exact hfs f h

/-! ### What a start is told -/

theorem Orderly.stage (hs : s.Orderly) {a : Action} {p : Stage} (h : s.stage? a = some p) :
    p.Proper ∧ ∀ k ∈ p.held, k ∈ s.engine.host.live := by
  have live (k : Handle) (hk : k ∈ s.claimed) := mem_live_of_claimed hs.exact hk
  cases a with
  | proceed n =>
    have hmem : p ∈ s.callers := List.mem_of_getElem? h
    exact ⟨hs.callers p hmem, fun k hk =>
      live k (List.mem_append_left _ (List.mem_flatMap_of_mem hmem hk))⟩
  | chore =>
    unfold stage? at h
    dsimp only at h
    split at h
    · rename_i k label q rest ha
      cases h
      have hq : (Chore.call k label p).Proper := hs.agenda _ (ha ▸ List.mem_cons_self)
      exact ⟨hq, fun k hk => live k (by simp [(retired_released ha).1, Chore.held, hk])⟩
    · cases h
  | call _ | refuse | signal | construct | install | look | listen | letGo | encode _ _ => cases h

/-- A start that comes back refused comes from its claim, or has given its handle back. -/
theorem refused_cases (hs : s.Orderly) {a : Action} {h : Handle} {x : CallError}
    (hd : .answered h (.error x) ∈ (s.step a).2) :
    (x = .duplicateStream h ∧ h ∈ s.engine.host.live ∧
      (s.step a).1.engine.host.live = s.engine.host.live ∧
      ∃ app, s.stage? a = some (.begun (.start h app))) ∨
    x = .terminated ∧ (s.step a).1.engine.host.live = s.engine.host.live.erase h := by
  cases hp : s.stage? a with
  | some p =>
    have hproper := (hs.stage hp).1
    obtain ⟨w, q, ds, hproceeds, hds, -, hlive⟩ := step_of_stage hp
    rw [hds] at hd
    cases hproceeds with
    | duplicate hmem =>
      simp only [List.mem_singleton, Deed.answered.injEq, Except.error.injEq] at hd
      obtain ⟨rfl, rfl⟩ := hd
      exact .inl ⟨rfl, hmem, hlive, _, rfl⟩
    | givenBack j e =>
      obtain rfl : e = .terminated := hproper
      simp only [List.mem_singleton, Deed.answered.injEq, Except.error.injEq] at hd
      obtain ⟨rfl, rfl⟩ := hd
      exact .inr ⟨rfl, hlive⟩
    | done _ | gone _ _ | claimed _ | quiet _ _ | posted _ | enqueued _ | accepted _
    | turnedDown _ => simp at hd
  | none =>
    rcases deed_cases hd with ⟨p, _, _, _, h, -⟩ | ⟨-, hd⟩ | hd | ⟨b, t, st, h⟩ | h
    · simp [hp] at h
    · exact absurd hd (answered_notMem_look s h _)
    · exact absurd hd (answered_notMem_listen s h _)
    · cases h
    · cases h

/-- A start is told that it is a duplicate at its claim, if its handle is held. -/
theorem duplicate_iff (hs : s.Orderly) {a : Action} {h k : Handle} :
    .answered h (.error (.duplicateStream k)) ∈ (s.step a).2 ↔
      k = h ∧ h ∈ s.holders ∧ ∃ app, s.stage? a = some (.begun (.start h app)) := by
  rw [← mem_live_iff hs.exact]
  constructor
  · intro hd
    rcases refused_cases hs hd with ⟨hx, hlive, -, happ⟩ | ⟨hx, -⟩
    · exact ⟨CallError.duplicateStream.inj hx, hlive, happ⟩
    · cases hx
  · rintro ⟨rfl, hlive, app, hp⟩
    obtain ⟨w, q, ds, hproceeds, hds, -⟩ := step_of_stage hp
    rw [hds]
    cases hproceeds with
    | duplicate _ => exact List.mem_singleton_self _
    | gone _ ha => simp [hs.attached] at ha
    | claimed hl => simp [LiveSet.claim_eq_none_iff.mpr hlive] at hl
    | quiet hc _ => exact absurd rfl (hc k app)
    | posted ht => cases ht

/-- A step of a start leaves the queues alone unless the start succeeds in it. -/
theorem intake_of_start {a : Action} {h : Handle} {app : Application} {e : CallError} {p : Stage}
    (hp : s.stage? a = some p)
    (hstart : p = .begun (.start h app) ∨ p = .claimed h app ∨ p = .refused h e)
    (hd : .answered h (.ok ()) ∉ (s.step a).2) :
    (s.step a).1.engine.host.intake = s.engine.host.intake := by
  obtain ⟨w, q, ds, hproceeds, hds, hintake, -⟩ := step_of_stage hp
  rw [hds] at hd
  rw [hintake]
  rcases hstart with rfl | rfl | rfl
  · cases hproceeds with
    | duplicate _ | gone _ _ | claimed _ => rfl
    | quiet hc _ => exact absurd rfl (hc h app)
    | posted ht => cases ht
  · cases hproceeds with
    | turnedDown _ => rfl
    | accepted _ => simp at hd
  · cases hproceeds
    rfl

/-- A start that is refused leaves nothing behind: as a duplicate it changes
nobody's hold on anything, and it is refused otherwise by termination only, when
nothing holds its handle any more. -/
theorem refused_for (hs : s.Orderly) {a : Action} (ha : a.Proper) {h : Handle} {x : CallError}
    (hd : .answered h (.error x) ∈ (s.step a).2) :
    x = .duplicateStream h ∧ (s.step a).1.holders.Perm s.holders ∨
      x = .terminated ∧ h ∉ (s.step a).1.holders := by
  have hexact := (orderly_step hs ha).2.exact
  rcases refused_cases hs hd with ⟨hx, -, hlive, -⟩ | ⟨hx, hlive⟩
  · refine .inl ⟨hx, ?_⟩
    unfold Exact at hexact
    rw [hlive] at hexact
    exact hexact.symm.trans hs.exact
  · refine .inr ⟨hx, ?_⟩
    rw [← mem_live_iff hexact, hlive, LiveSet.mem_erase]
    exact fun hmem => hmem.2 rfl

/-- What the calls that start streams are told, and leave behind. -/
structure StartsFairly (s : Scene) (a : Action) : Prop where
  /-- A start is refused as a duplicate at its claim, exactly if its handle is held. -/
  duplicate {h k : Handle} : .answered h (.error (.duplicateStream k)) ∈ (s.step a).2 ↔
    k = h ∧ h ∈ s.holders ∧ ∃ app, s.stage? a = some (.begun (.start h app))
  /-- Only the step in which a start succeeds puts anything into a queue. -/
  unqueued {h : Handle} {app : Application} {e : CallError} {p : Stage} : s.stage? a = some p →
    p = .begun (.start h app) ∨ p = .claimed h app ∨ p = .refused h e →
    .answered h (.ok ()) ∉ (s.step a).2 →
    (s.step a).1.engine.host.intake = s.engine.host.intake
  /-- A start that is refused changes nobody's hold, if it is a duplicate, and is
  refused by termination otherwise, when nothing holds its handle any more. -/
  refused {h : Handle} {x : CallError} : .answered h (.error x) ∈ (s.step a).2 →
    x = .duplicateStream h ∧ (s.step a).1.holders.Perm s.holders ∨
      x = .terminated ∧ h ∉ (s.step a).1.holders

/-- Before anybody has called an engine, no handle is live and none is held. -/
theorem orderly_of_start {config : Config} {answers : Bool} {draws : Draws} {e : Engine}
    (he : Engine.start config answers draws = .ok e) : Orderly { engine := e } := by
  have hwired := wired_of_start he
  unfold Engine.start at he
  split at he
  · cases he
  · split at he <;> cases he
    exact {
      wired := hwired
      sound := Client.sound_ofConfig config draws
      onThread := rfl
      attached := rfl
      tasks := List.forall_mem_nil _
      applications := fun _ _ h => by cases h
      callers := List.forall_mem_nil _
      agenda := List.forall_mem_nil _
      exact := .refl [] }

/-- In every order in which threads call an engine, terminate it and start
streams through it, its dispatcher works and the pipeline sends parts of
responses, the live handles are those held, each held once; between two tasks
nothing is retiring; no task takes the dispatcher down, so no stream is started
twice; and every start is told what is so. -/
theorem live_handles_exact {config : Config} {answers : Bool} {draws : Draws} {e : Engine}
    (he : Engine.start config answers draws = .ok e) (actions : List Action)
    (hp : ∀ a ∈ actions, a.Proper) :
    (after { engine := e } actions).Exact ∧
    ((after { engine := e } actions).agenda = [] →
      (after { engine := e } actions).engine.host.live.handles.Perm
        ((after { engine := e } actions).claimed ++ (after { engine := e } actions).queued ++
          (after { engine := e } actions).registered)) ∧
    (∀ f, .faulted f ∉ deeds { engine := e } actions) ∧
    ∀ a : Action, a.Proper → (after { engine := e } actions).StartsFairly a := by
  obtain ⟨hf, ho⟩ := orderly_after (orderly_of_start he) hp
  refine ⟨ho.exact, fun ha => ?_, hf, fun a ha =>
    ⟨duplicate_iff ho, intake_of_start, refused_for ho ha⟩⟩
  have hexact := ho.exact
  unfold Exact holders retiring at hexact
  rwa [ha, List.flatMap_nil, List.append_nil] at hexact

/-- Two threads start streams under one handle: the second is refused while the
first is yet to hand in its task. When the stream has been cancelled, its handle
is live until the release takes effect. -/
theorem live_handles_exact_cancelled :
    ∃ e s ds, Engine.start {} false {} = .ok e ∧
      s = after { engine := e } [.call (.start ⟨1⟩ .silent), .call (.start ⟨1⟩ .silent),
        .proceed 0, .proceed 1, .construct, .proceed 0, .call (.post (.operate (.cancel ⟨1⟩))),
        .proceed 2, .install, .look, .chore, .chore, .look] ∧
      ds = deeds { engine := e } [.call (.start ⟨1⟩ .silent), .call (.start ⟨1⟩ .silent),
        .proceed 0, .proceed 1, .construct, .proceed 0, .call (.post (.operate (.cancel ⟨1⟩))),
        .proceed 2, .install, .look, .chore, .chore, .look] ∧
      ds = [.answered ⟨1⟩ (.error (.duplicateStream ⟨1⟩)), .posted (.start ⟨1⟩ .silent) (.ok ()),
        .answered ⟨1⟩ (.ok ()), .posted (.operate (.cancel ⟨1⟩)) (.ok ()),
        .ran (.start ⟨1⟩ .silent), .ran (.operate (.cancel ⟨1⟩))] ∧
      s.engine.host.live.handles = [⟨1⟩] ∧ s.retiring = [⟨1⟩] ∧ s.registered = [] ∧
      s.Exact ∧
      (s.agenda = [] →
        s.engine.host.live.handles.Perm (s.claimed ++ s.queued ++ s.registered)) ∧
      (∀ f, .faulted f ∉ ds) ∧ ∀ a : Action, a.Proper → s.StartsFairly a := by
  refine ⟨_, _, _, rfl, rfl, rfl, rfl, rfl, rfl, rfl,
    @live_handles_exact {} false {} _ rfl _ fun a ha => ?_⟩
  cases a with
  | call c =>
    obtain rfl | rfl : c = .start ⟨1⟩ .silent ∨ c = .post (.operate (.cancel ⟨1⟩)) := by
      simpa using ha
    · exact .start (.mk nofun)
    · exact .post fun _ => nofun
  | proceed _ | refuse | signal | construct | install | look | listen | chore | letGo | encode _ _ =>
    trivial

end Scene
end HttpExchange
