/-
# What accepted work survives shutdown

However threads are interleaved with the dispatcher, and whenever the engine is
terminated, what its intake and its dispatcher's queue hold (`Intake.backlog`)
is what has been accepted and has not been run, in order. The dispatcher leaves
its loop only once it has been told to, and then calls are refused already.

The backlog was empty when the dispatcher last looked at it, but then it looks at
the signal, and other threads may act between the two looks. What they hand in
there is accepted and lost if the signal is there (`Scene.left_split`); everything
accepted before that is run.

Key definitions: `Intake.backlog`, `Intake.Wired`, `Scene.accepted`, `Scene.ran`,
`Scene.ByOthers`, `Scene.Wired`.
Key theorems: `Scene.carries_step`, `Scene.flow`, `Scene.listening_split`,
`Scene.left_split`, `Scene.accepted_work_runs_up_to_last_look`.
-/
import HttpExchange.Proofs.Interleaving

namespace HttpExchange

namespace Scene

/-- The task that was accepted, if one was. -/
def accepted? : Deed → Option Task
  | .posted t (.ok ()) | .sent _ t (.ok ()) => some t
  | _ => none

/-- The task that was run, if one was. -/
def ran? : Deed → Option Task
  | .ran t => some t
  | _ => none

/-- The tasks that were accepted, by the engine or by the dispatcher's queue, in
the order in which they were. -/
def accepted (ds : List Deed) : List Task := ds.filterMap accepted?

/-- The tasks that were run, in order. -/
def ran (ds : List Deed) : List Task := ds.filterMap ran?

@[simp] theorem accepted_append (xs ys : List Deed) :
    accepted (xs ++ ys) = accepted xs ++ accepted ys := List.filterMap_append

@[simp] theorem ran_append (xs ys : List Deed) : ran (xs ++ ys) = ran xs ++ ran ys :=
  List.filterMap_append

@[simp] theorem accepted_answered (k : Handle) (s : Status) : accepted [.answered k s] = [] := rfl

@[simp] theorem accepted_refused : accepted [.refused] = [] := rfl

@[simp] theorem accepted_foundEmpty : accepted [.foundEmpty] = [] := rfl

@[simp] theorem accepted_left : accepted [.left] = [] := rfl

@[simp] theorem ran_foundEmpty : ran [.foundEmpty] = [] := rfl

@[simp] theorem ran_left : ran [.left] = [] := rfl

@[simp] theorem accepted_sent_error (b : Bool) (t : Task) (e : CallError) :
    accepted [.sent b t (.error e)] = [] := rfl

/-- None of this was done on the dispatcher thread. -/
structure ByOthers (ds : List Deed) : Prop where
  unlooked : .foundEmpty ∉ ds
  idle : ran ds = []
  unsent : ∀ t s, .sent true t s ∉ ds

theorem ByOthers.nothing : ByOthers [] := ⟨nofun, rfl, nofun⟩

theorem ByOthers.append {xs ys : List Deed} (hx : ByOthers xs) (hy : ByOthers ys) :
    ByOthers (xs ++ ys) where
  unlooked h := (List.mem_append.mp h).elim hx.unlooked hy.unlooked
  idle := by rw [ran_append, hx.idle, hy.idle, List.append_nil]
  unsent t s h := (List.mem_append.mp h).elim (hx.unsent t s) (hy.unsent t s)

end Scene

open Scene (accepted ran)

/-! ### The intake of an engine -/

namespace Intake

variable {p : Phase} {i j : Intake Task}

/-- What is yet to be run, in order: the dispatcher's queue, and what waits for a
dispatcher. -/
def backlog (i : Intake Task) : List Task := i.pending 0 ++ i.waiting

/-- How the intake of an engine stands while the dispatcher is in a phase. -/
inductive Wired : Phase → Intake Task → Prop
  | unbuilt (waiting : List Task) (terminated : Bool) :
      Wired .building ⟨waiting, none, terminated, []⟩
  | built (waiting : List Task) (terminated : Bool) :
      Wired .building ⟨waiting, none, terminated, [⟨[], true⟩]⟩
  | installed {p : Phase} (pending : List Task) : p = .serving ∨ p = .held →
      Wired p ⟨[], some ⟨0, 1⟩, false, [⟨pending, true⟩]⟩
  | closing {p : Phase} (pending : List Task) : p = .serving ∨ p = .held →
      Wired p ⟨[], none, true, [⟨pending, true⟩]⟩
  | ended : Wired .ended ⟨[], none, true, [⟨[], false⟩]⟩

/-- What a step does to an intake that leaves the dispatcher in phase `p` and
runs nothing: what was accepted is put behind the backlog, work handed in after
termination is refused, and a dispatcher that is there refuses none. -/
structure Takes (p : Phase) (i j : Intake Task) (ds : List Deed) : Prop where
  wired : Wired p j
  backlog : j.backlog = i.backlog ++ accepted ds
  idle : ran ds = []
  stays : .left ∉ ds
  unlooked : .foundEmpty ∉ ds
  terminated : i.terminated = true ∨ .refused ∈ ds → j.terminated = true
  posts : i.terminated = true → ∀ {t s}, .posted t s ∈ ds → s = .error .terminated
  sends : p ≠ .ended → ∀ {b t s}, .sent b t s ∈ ds → s = .ok ()
  apart : .refused ∈ ds → ∀ {t s}, .posted t s ∉ ds

/-- A step that moves work about within the intake. -/
theorem Wired.rearranged (h : Wired p j) (hb : j.backlog = i.backlog)
    (ht : j.terminated = i.terminated) : Takes p i j [] where
  wired := h
  backlog := by simpa [accepted] using hb
  idle := rfl
  stays := by simp
  unlooked := by simp
  terminated := by simp [ht]
  posts := by simp
  sends := by simp
  apart := by simp

theorem Wired.nothing (h : Wired p i) : Takes p i i [] := h.rearranged rfl rfl

/-- A call that comes back says nothing about the intake. -/
theorem Takes.answered {ds : List Deed} (h : Takes p i j ds) (k : Handle) (s : Status) :
    Takes p i j (ds ++ [.answered k s]) where
  wired := h.wired
  backlog := by simpa using h.backlog
  idle := by simpa [ran, Scene.ran?] using h.idle
  stays := by simpa using h.stays
  unlooked := by simpa using h.unlooked
  terminated ht := h.terminated (by simpa using ht)
  posts ht _ _ hd := h.posts ht (by simpa using hd)
  sends hp _ _ _ hd := h.sends hp (by simpa using hd)
  apart hr _ _ hd := h.apart (by simpa using hr) (by simpa using hd)

/-- Work that is refused leaves everything as it was. -/
theorem Wired.refuses (h : Wired p i) (t : Task) :
    Takes p i i [.posted t (.error .terminated)] where
  wired := h
  backlog := by simp [accepted, Scene.accepted?]
  idle := rfl
  stays := by simp
  unlooked := by simp
  terminated := by simp
  posts := by simp
  sends := by simp
  apart := by simp

/-- Work that is accepted goes behind the backlog. -/
theorem Wired.accepts (h : Wired p j) {t : Task} (hb : j.backlog = i.backlog ++ [t])
    (hi : i.terminated = false) : Takes p i j [.posted t (.ok ())] where
  wired := h
  backlog := hb
  idle := rfl
  stays := by simp
  unlooked := by simp
  terminated := by simp [hi]
  posts := by simp [hi]
  sends := by simp
  apart := by simp

/-- Handing work to the engine appends it to the backlog, or refuses it. -/
theorem Wired.post (h : Wired p i) (t : Task) :
    Takes p i (i.post t).1 [.posted t (i.post t).2] := by
  cases h with
  | unbuilt waiting terminated =>
    cases terminated with
    | true => exact (Wired.unbuilt waiting true).refuses t
    | false => exact (Wired.unbuilt _ _).accepts rfl rfl
  | built waiting terminated =>
    cases terminated with
    | true => exact (Wired.built waiting true).refuses t
    | false => exact (Wired.built _ _).accepts rfl rfl
  | installed pending hp =>
    refine (Wired.installed (pending ++ [t]) hp).accepts ?_ rfl
    simp [Intake.backlog, Intake.pending]
  | closing pending hp => exact (Wired.closing pending hp).refuses t
  | ended => exact Wired.ended.refuses t

/-- What is put straight into the queue is refused once the dispatcher is gone. -/
theorem Wired.send (h : Wired p i) (hp : p ≠ .building) (b : Bool) (t : Task) :
    (p = .ended ∧ i.send 0 t = none) ∨
      ∃ j, i.send 0 t = some j ∧ Takes p i j [.sent b t (.ok ())] := by
  have accepts {j : Intake Task} (hj : Wired p j) (hb : j.backlog = i.backlog ++ [t])
      (ht : i.terminated = true → j.terminated = true) : Takes p i j [.sent b t (.ok ())] :=
    ⟨hj, hb, rfl, by simp, by simp, by simpa using ht, by simp, by simp, by simp⟩
  cases h with
  | unbuilt | built => exact absurd rfl hp
  | installed pending hr =>
    refine .inr ⟨_, rfl, accepts (.installed (pending ++ [t]) hr) ?_ id⟩
    simp [Intake.backlog, Intake.pending]
  | closing pending hr =>
    refine .inr ⟨_, rfl, accepts (.closing (pending ++ [t]) hr) ?_ id⟩
    simp [Intake.backlog, Intake.pending]
  | ended => exact .inl ⟨rfl, rfl⟩

theorem Wired.terminate (h : Wired p i) : Takes p i i.terminate [.refused] := by
  have refuses {j : Intake Task} (hj : Wired p j) (hb : j.backlog = i.backlog)
      (ht : j.terminated = true) : Takes p i j [.refused] :=
    ⟨hj, by simpa using hb, rfl, by simp, by simp, fun _ => ht, by simp, by simp, by simp⟩
  cases h with
  | unbuilt waiting _ => exact refuses (.unbuilt waiting true) rfl rfl
  | built waiting _ => exact refuses (.built waiting true) rfl rfl
  | installed pending hp => exact refuses (.closing pending hp) rfl rfl
  | closing pending hp => exact refuses (.closing pending hp) rfl rfl
  | ended => exact refuses .ended rfl rfl

theorem Wired.addChannel (h : Wired .building i) (hc : i.channels.length = 0) :
    Takes .building i (i.addChannel {}) [] := by
  cases h with
  | unbuilt waiting terminated => exact (Wired.built waiting terminated).rearranged rfl rfl
  | built => cases hc
  | installed _ hp | closing _ hp => simp at hp

/-- An open queue takes a whole list. -/
theorem sendAll_open (waiting pending : List Task) (target : Option Target) (terminated : Bool)
    (ts : List Task) :
    (⟨waiting, target, terminated, [⟨pending, true⟩]⟩ : Intake Task).sendAll 0 ts =
      (⟨waiting, target, terminated, [⟨pending ++ ts, true⟩]⟩, true) := by
  induction ts generalizing pending with
  | nil => simp [sendAll]
  | cons t ts ih =>
    have hs : (⟨waiting, target, terminated, [⟨pending, true⟩]⟩ : Intake Task).send 0 t =
        some ⟨waiting, target, terminated, [⟨pending ++ [t], true⟩]⟩ := rfl
    simp only [sendAll, hs, ih, List.append_assoc, List.singleton_append]

/-- Installing the dispatcher moves what waits to its queue, in order. -/
theorem Wired.start (h : Wired .building i) (hc : i.channels.length ≠ 0) :
    Takes .serving i (i.start ⟨0, 1⟩) [] := by
  cases h with
  | unbuilt => exact absurd rfl hc
  | built waiting terminated =>
    simp only [Intake.start, sendAll_open, List.nil_append]
    cases terminated with
    | true =>
      refine (Wired.closing waiting (.inl rfl)).rearranged ?_ rfl
      simp [Intake.backlog, Intake.pending]
    | false =>
      refine (Wired.installed waiting (.inl rfl)).rearranged ?_ rfl
      simp [Intake.backlog, Intake.pending]
  | installed _ hp | closing _ hp => simp at hp

/-- The dispatcher takes the first piece of the backlog. -/
theorem Wired.next (h : Wired .serving i) {t : Task} (hn : i.next? 0 = some (t, j)) :
    Wired .serving j ∧ i.backlog = t :: j.backlog ∧ j.terminated = i.terminated := by
  cases h with
  | installed pending hp =>
    cases pending with
    | nil => cases hn
    | cons a rest => cases hn; exact ⟨.installed rest hp, rfl, rfl⟩
  | closing pending hp =>
    cases pending with
    | nil => cases hn
    | cons a rest => cases hn; exact ⟨.closing rest hp, rfl, rfl⟩

/-- While the dispatcher serves, the backlog is its queue. -/
theorem Wired.backlog_serving (h : Wired .serving i) : i.backlog = i.pending 0 := by
  cases h <;> exact List.append_nil _

/-- The dispatcher may leave once the engine refuses calls. -/
theorem Wired.exit (h : Wired .serving i) (ht : i.terminated = true) :
    Wired .ended (i.closeChannel 0).terminate := by
  cases h with
  | installed pending hp => cases ht
  | closing pending hp => exact .ended

theorem Wired.backlog_ended (h : Wired .ended i) : i.backlog = [] ∧ i.terminated = true := by
  cases h with
  | installed _ hp | closing _ hp => simp at hp
  | ended => exact ⟨rfl, rfl⟩

/-- A dispatcher that is held has the intake of one that runs. -/
theorem Wired.pause (h : Wired .serving i) : Wired .held i := by
  cases h with
  | installed pending _ => exact .installed pending (.inr rfl)
  | closing pending _ => exact .closing pending (.inr rfl)

theorem Wired.resume (h : Wired .held i) : Wired .serving i := by
  cases h with
  | installed pending _ => exact .installed pending (.inl rfl)
  | closing pending _ => exact .closing pending (.inl rfl)

end Intake

namespace Host

open Intake (Takes)

variable {p : Phase} {v w : Host}

theorem enqueue_takes (hw : Intake.Wired p w.intake) (hp : p ≠ .building) (b : Bool) (t : Task) :
    Takes p w.intake (w.enqueue t).1.intake [.sent b t (w.enqueue t).2] := by
  unfold enqueue
  rcases hw.send hp b t with ⟨rfl, hs⟩ | ⟨j, hs, ht⟩
  · rw [hs]
    exact ⟨hw, by simp, rfl, by simp, by simp, by simp, by simp, by simp, by simp⟩
  · rw [hs]
    exact ht

/-- What the next step of a call does to the intake. Only a dispatcher that is
there is reached past the intake. -/
theorem Proceeds.takes {q q' : Stage} {ds : List Deed} (h : w.Proceeds q v q' ds)
    (hw : Intake.Wired p w.intake) (hq : p = .building → ∀ t, q ≠ .begun (.enqueue t)) :
    Takes p w.intake v.intake ds := by
  cases h with
  | done | gone | claimed _ => exact hw.nothing
  | duplicate | givenBack => exact hw.nothing.answered _ _
  | quiet _ hv => rw [hv]; exact hw.nothing
  | posted _ => exact hw.post _
  | enqueued t =>
    have hp : p ≠ .building := fun hp => hq hp t rfl
    exact enqueue_takes hw hp true t
  | @accepted k app hok =>
    have ht := hw.post (.start k app)
    rw [show (w.intake.post (.start k app)).2 = .ok () from hok] at ht
    exact ht.answered _ _
  | turnedDown _ => exact hw.refuses _

/-- A call that has begun is done, or goes on as a start. -/
theorem Proceeds.not_begun {q q' : Stage} {ds : List Deed} (h : w.Proceeds q v q' ds) (c : Call) :
    q' ≠ .begun c := by
  cases h <;> simp

/-- Only a call that reaches past the intake sends anything. -/
theorem Proceeds.unsent {q q' : Stage} {ds : List Deed} (h : w.Proceeds q v q' ds)
    (hq : ∀ t, q ≠ .begun (.enqueue t)) (b : Bool) (t : Task) (s : Status) : .sent b t s ∉ ds := by
  cases h with
  | enqueued t => exact absurd rfl (hq t)
  | done | gone | duplicate | claimed | quiet | posted | accepted | turnedDown | givenBack => simp

theorem launch_keeps {op : Operation} {chores : List Chore} (h : w.launch op = .ok (v, chores)) :
    v = { w with client := v.client } := by
  unfold launch at h
  split at h
  · cases h
  · split at h
    · cases h
    · cases h
      rfl

/-- Beginning a task leaves the queues alone. -/
theorem begin_keeps {t : Task} {chores : List Chore} (h : w.begin t = .ok (v, chores)) :
    v.intake = w.intake := by
  cases t with
  | start k app => rw [launch_keeps h]
  | operate op => rw [launch_keeps h]
  | crash => cases h
  | has _ | terminate | hold => cases h; rfl
  | claim k | release k =>
    simp only [begin, run] at h
    split at h <;> cases h <;> rfl

end Host

/-! ### Scenes -/

namespace Scene

open Intake (Takes)

variable {s : Scene}

/-- What was accepted and has not been run: what the dispatcher left behind, and
what is yet to be run. -/
def backlog (s : Scene) : List Task := s.stranded ++ s.engine.host.intake.backlog

/-- What holds of a scene as long as no fault takes the dispatcher down. -/
structure Wired (s : Scene) : Prop where
  intake : Intake.Wired s.engine.phase s.engine.host.intake
  idle : s.engine.phase ≠ .serving → s.agenda = []
  /-- Nothing is sent to a dispatcher before there was a stream. -/
  silent : s.engine.phase = .building → ∀ h, s.engine.host.pipeline.latest.contains h = false
  /-- Calls are refused before the dispatcher is told to end. -/
  ending : s.engine.signalled = true ∨ s.leaving ≠ 0 ∨ .signal ∈ s.agenda →
    s.engine.host.intake.terminated = true
  facade : ∀ t, .begun (.enqueue t) ∉ s.callers
  listening : s.listening = true → s.engine.phase = .serving ∧ s.agenda = []
  stranded : s.engine.phase ≠ .ended → s.stranded = []

/-- What a step of a scene does to the work: what was accepted goes behind the
backlog, what was run comes off its front. -/
structure Carries (s : Scene) (r : Scene × List Deed) : Prop where
  wired : r.1.Wired
  flow : s.backlog ++ accepted r.2 = ran r.2 ++ r.1.backlog
  terminated : s.engine.host.intake.terminated = true ∨ .refused ∈ r.2 →
    r.1.engine.host.intake.terminated = true
  posts : s.engine.host.intake.terminated = true →
    ∀ {t st}, .posted t st ∈ r.2 → st = .error .terminated
  sends : s.engine.phase ≠ .ended → ∀ {b t st}, .sent b t st ∈ r.2 → st = .ok ()
  apart : .refused ∈ r.2 → ∀ {t st}, .posted t st ∉ r.2
  found : .foundEmpty ∈ r.2 → r.2 = [.foundEmpty] ∧ s.backlog = []
  /-- Between the two looks of the dispatcher only others act. -/
  listens : r.1.listening = true → s.listening = true ∧ ByOthers r.2 ∨ r.2 = [.foundEmpty]
  left : .left ∈ r.2 → r.2 = [.left] ∧ s.listening = true ∧ r.1.engine.phase = .ended
  ended : s.engine.phase = .ended →
    r.1.engine.phase = .ended ∧ ran r.2 = [] ∧ r.1.backlog = s.backlog

/-- A step that only puts work behind the backlog. -/
theorem carries_of_takes (hs : s.Wired) {r : Scene} {ds : List Deed}
    (ht : Takes r.engine.phase s.engine.host.intake r.engine.host.intake ds)
    (hended : r.engine.phase = .ended ↔ s.engine.phase = .ended)
    (hidle : r.engine.phase ≠ .serving → r.agenda = [])
    (hsilent : r.engine.phase = .building →
      s.engine.phase = .building ∧ r.engine.host.pipeline = s.engine.host.pipeline)
    (hending : r.engine.signalled = true ∨ r.leaving ≠ 0 ∨ .signal ∈ r.agenda →
      s.engine.host.intake.terminated = true ∨ .refused ∈ ds)
    (hfacade : ∀ t, .begun (.enqueue t) ∉ r.callers)
    (hkept : r.listening = s.listening ∧ r.stranded = s.stranded)
    (hothers : s.listening = true → r.engine.phase = .serving ∧ r.agenda = [] ∧
      ∀ t st, .sent true t st ∉ ds) : Carries s (r, ds) where
  wired := {
    intake := ht.wired
    idle := hidle
    silent hb h := by
      obtain ⟨hsb, hpipe⟩ := hsilent hb
      rw [hpipe]
      exact hs.silent hsb h
    ending h := ht.terminated (hending h)
    facade := hfacade
    listening h := by
      obtain ⟨hserving, hnone, -⟩ := hothers (hkept.1 ▸ h)
      exact ⟨hserving, hnone⟩
    stranded h := by
      rw [hkept.2]
      exact hs.stranded (mt hended.mpr h) }
  flow := by
    change s.stranded ++ _ ++ _ = ran ds ++ (r.stranded ++ _)
    rw [ht.idle, hkept.2, ht.backlog, List.nil_append, List.append_assoc]
  terminated := ht.terminated
  posts := ht.posts
  sends hp := ht.sends fun h => hp (hended.mp h)
  apart := ht.apart
  found h := absurd h ht.unlooked
  listens h := by
    have hs' : s.listening = true := hkept.1 ▸ h
    exact .inl ⟨hs', ht.unlooked, ht.idle, (hothers hs').2.2⟩
  left h := absurd h ht.stays
  ended h := by
    have hr := hended.mpr h
    have hi : Intake.Wired .ended s.engine.host.intake := h ▸ hs.intake
    have hj : Intake.Wired .ended r.engine.host.intake := hr ▸ ht.wired
    refine ⟨hr, ht.idle, ?_⟩
    change r.stranded ++ _ = s.stranded ++ _
    rw [hkept.2, hi.backlog_ended.1, hj.backlog_ended.1]

/-- The dispatcher does not listen while there is something left to do. -/
theorem Wired.quiet (hs : s.Wired) {ds : List Deed} (hds : ∀ t st, .sent true t st ∉ ds)
    (h : s.listening = true) :
    s.engine.phase = .serving ∧ s.agenda = [] ∧ ∀ t st, .sent true t st ∉ ds :=
  ⟨(hs.listening h).1, (hs.listening h).2, hds⟩

theorem carries_self (hs : s.Wired) : Carries s (s, []) :=
  carries_of_takes hs hs.intake.nothing .rfl hs.idle (fun h => ⟨h, rfl⟩)
    (fun h => .inl (hs.ending h)) hs.facade ⟨rfl, rfl⟩ (hs.quiet nofun)

/-- A step that changes nothing but the host, and takes a call further. -/
theorem carries_proceed (hs : s.Wired) (n : Nat) : Carries s (s.step (.proceed n)) := by
  unfold step
  dsimp only
  split
  · exact carries_self hs
  · rename_i q hq
    have hp := s.engine.host.proceeds q
    have hmem : q ∈ s.callers := List.mem_of_getElem? hq
    have hq (t : Task) (h : q = .begun (.enqueue t)) : False := hs.facade t (h ▸ hmem)
    refine carries_of_takes hs (hp.takes hs.intake fun _ => hq) .rfl hs.idle
      (fun h => ⟨h, by dsimp only; rw [hp.frame]⟩) (fun h => .inl (hs.ending h)) (fun t h => ?_)
      ⟨rfl, rfl⟩ (hs.quiet (hp.unsent hq true))
    rcases List.mem_or_eq_of_mem_set h with h | h
    · exact hs.facade t h
    · exact hp.not_begun _ h.symm

theorem carries_call (hs : s.Wired) (c : Call) : Carries s (s.step (.call c)) := by
  cases c with
  | enqueue t => exact carries_self hs
  | init | start _ _ | resume _ _ | setNetwork _ | network | post _ =>
    refine carries_of_takes hs hs.intake.nothing .rfl hs.idle (fun h => ⟨h, rfl⟩)
      (fun h => .inl (hs.ending h)) (fun t h => ?_) ⟨rfl, rfl⟩ (hs.quiet nofun)
    rcases List.mem_append.mp h with h | h
    · exact hs.facade t h
    · simp at h

theorem carries_refuse (hs : s.Wired) : Carries s (s.step .refuse) :=
  carries_of_takes hs hs.intake.terminate .rfl hs.idle (fun h => ⟨h, rfl⟩)
    (fun _ => .inr List.mem_cons_self) hs.facade ⟨rfl, rfl⟩ (hs.quiet (by simp))

theorem carries_signal (hs : s.Wired) : Carries s (s.step .signal) := by
  unfold step
  dsimp only
  split
  · exact carries_self hs
  · rename_i hl
    exact carries_of_takes hs hs.intake.nothing .rfl hs.idle (fun h => ⟨h, rfl⟩)
      (fun _ => .inl (hs.ending (.inr (.inl hl)))) hs.facade ⟨rfl, rfl⟩ (hs.quiet nofun)

theorem carries_construct (hs : s.Wired) : Carries s (s.step .construct) := by
  unfold step
  dsimp only
  split
  · rename_i hb
    have ht := (hb.1 ▸ hs.intake : Intake.Wired .building _).addChannel hb.2
    rw [← hb.1] at ht
    exact carries_of_takes hs ht .rfl hs.idle (fun h => ⟨h, rfl⟩) (fun h => .inl (hs.ending h))
      hs.facade ⟨rfl, rfl⟩ (hs.quiet nofun)
  · exact carries_self hs

theorem carries_install (hs : s.Wired) : Carries s (s.step .install) := by
  unfold step
  dsimp only
  split
  · rename_i hb
    have ht := (hb.1 ▸ hs.intake : Intake.Wired .building _).start hb.2
    exact carries_of_takes hs ht (by simp [Engine.install, hb.1]) (fun h => absurd rfl h)
      (fun h => by simp [Engine.install] at h) (fun h => .inl (hs.ending h)) hs.facade ⟨rfl, rfl⟩
      (fun h => by simp [(hs.listening h).1] at hb)
  · exact carries_self hs

theorem carries_letGo (hs : s.Wired) : Carries s (s.step .letGo) := by
  unfold step
  dsimp only
  split
  · rename_i hb
    have ht := (hb ▸ hs.intake : Intake.Wired .held _).resume.nothing
    exact carries_of_takes hs ht (by simp [hb]) (fun h => absurd rfl h)
      (fun h => by simp at h) (fun h => .inl (hs.ending h)) hs.facade ⟨rfl, rfl⟩
      (fun h => by simp [(hs.listening h).1] at hb)
  · exact carries_self hs

theorem carries_encode (hs : s.Wired) (h : Handle) (part : ResponsePart) :
    Carries s (s.step (.encode h part)) := by
  unfold step Host.encode
  dsimp only
  cases hc : s.engine.host.pipeline.latest.contains h with
  | false => exact carries_self hs
  | true =>
    have hb : s.engine.phase ≠ .building := by
      intro hb
      rw [hs.silent hb h] at hc
      cases hc
    exact carries_of_takes hs (Host.enqueue_takes hs.intake hb false _) .rfl hs.idle
      (fun h => absurd h hb) (fun h => .inl (hs.ending h)) hs.facade ⟨rfl, rfl⟩
      (hs.quiet (by simp))

/-- A chore of a task in flight. -/
theorem carries_chore (hs : s.Wired) : Carries s (s.step .chore) := by
  unfold step
  dsimp only
  split
  · exact carries_self hs
  · rename_i c rest hagenda
    have hp : s.engine.phase = .serving := by
      cases hp : s.engine.phase with
      | serving => rfl
      | building | held | ended =>
        have := hs.idle (by simp [hp])
        rw [hagenda] at this
        cases this
    have hb : s.engine.phase ≠ .building := by simp [hp]
    have hbusy {P : Prop} (h : s.listening = true) : P := by
      rw [(hs.listening h).2] at hagenda
      cases hagenda
    have hrest : .signal ∈ rest → s.engine.host.intake.terminated = true := fun h =>
      hs.ending (.inr (.inr (hagenda ▸ List.mem_cons_of_mem c h)))
    have hending {P : Prop} (h : s.engine.signalled = true ∨ s.leaving ≠ 0 ∨ P)
        (hP : P → s.engine.host.intake.terminated = true) :
        s.engine.host.intake.terminated = true :=
      h.elim (fun h => hs.ending (.inl h)) (·.elim (fun h => hs.ending (.inr (.inl h))) hP)
    cases c with
    | emit o =>
      have hi : (s.engine.host.unpack o).1.intake = s.engine.host.intake := by cases o <;> rfl
      have hn : .signal ∉ (s.engine.host.unpack o).2 := by
        unfold Host.unpack
        cases o with
        | opened | released => simp
        | told id e => dsimp only; split <;> simp
        | called id c => simp
      refine carries_of_takes hs (hi ▸ hs.intake.nothing) .rfl (absurd hp) (absurd · hb)
        (fun h => .inl (hending h fun h => ?_)) hs.facade ⟨rfl, rfl⟩ hbusy
      rcases List.mem_append.mp h with h | h
      · exact absurd h hn
      · exact hrest h
    | call h label q =>
      have ht := (s.engine.host.proceeds q).takes hs.intake fun h => absurd h hb
      have hi : (s.engine.attend (.call h label q)).1.host.intake =
          (s.engine.host.proceed q).1.intake := by
        dsimp only [Engine.attend]
        rw [Host.conclude_eq]
      have hn : .signal ∉ (s.engine.host.proceed q).2.1.toChores h label := by
        cases (s.engine.host.proceed q).2.1 <;> simp [Stage.toChores]
      exact carries_of_takes hs (hi ▸ ht) .rfl (absurd hp) (absurd · hb)
        (fun h => .inl (hending h fun h => hrest ((List.mem_append.mp h).resolve_left hn))) hs.facade
        ⟨rfl, rfl⟩ hbusy
    | send t =>
      exact carries_of_takes hs (Host.enqueue_takes hs.intake hb true t) .rfl (absurd hp)
        (absurd · hb) (fun h => .inl (hending h hrest)) hs.facade ⟨rfl, rfl⟩ hbusy
    | sweep =>
      exact carries_of_takes hs hs.intake.nothing .rfl (absurd hp) (absurd · hb)
        (fun h => .inl (hending h hrest)) hs.facade ⟨rfl, rfl⟩ hbusy
    | terminate =>
      exact carries_of_takes hs hs.intake.terminate .rfl (absurd hp) (absurd · hb)
        (fun _ => .inr List.mem_cons_self) hs.facade ⟨rfl, rfl⟩ hbusy
    | signal =>
      exact carries_of_takes hs hs.intake.nothing .rfl (absurd hp) (absurd · hb)
        (fun _ => .inl (hs.ending (.inr (.inr (hagenda ▸ List.mem_cons_self))))) hs.facade
        ⟨rfl, rfl⟩ hbusy

/-- A look at the queue that takes the first task off it. -/
theorem carries_of_next (hs : s.Wired) (hp : s.engine.phase = .serving) {t : Task}
    {i : Intake Task} (hn : s.engine.host.intake.next? 0 = some (t, i)) {r : Scene}
    (hi : r.engine.host.intake = i) (hsignalled : r.engine.signalled = s.engine.signalled)
    (hleaving : r.leaving = s.leaving) (hcallers : r.callers = s.callers)
    (hlistening : r.listening = false) (hstranded : r.stranded = s.stranded)
    (hagenda : .signal ∉ r.agenda)
    (hphase : r.engine.phase = .serving ∨ r.engine.phase = .held ∧ r.agenda = []) :
    Carries s (r, [.ran t]) := by
  obtain ⟨hw, hb, ht⟩ := (hp ▸ hs.intake : Intake.Wired .serving _).next hn
  have hnone : s.stranded = [] := hs.stranded (by simp [hp])
  subst hi
  constructor
  case wired =>
    constructor
    case intake =>
      rcases hphase with h | ⟨h, -⟩
      · exact h ▸ hw
      · exact h ▸ hw.pause
    case idle =>
      rcases hphase with h | ⟨-, h⟩
      · exact absurd h
      · exact fun _ => h
    case silent =>
      intro h
      rcases hphase with hr | ⟨hr, -⟩ <;> simp [hr] at h
    case ending =>
      intro h
      rw [ht]
      rw [hsignalled, hleaving] at h
      rcases h with h | h | h
      · exact hs.ending (.inl h)
      · exact hs.ending (.inr (.inl h))
      · exact absurd h hagenda
    case facade =>
      rw [hcallers]
      exact hs.facade
    case listening => simp [hlistening]
    case stranded =>
      rw [hstranded]
      exact fun _ => hnone
  case flow =>
    change s.stranded ++ s.engine.host.intake.backlog ++ [] =
      [t] ++ (r.stranded ++ r.engine.host.intake.backlog)
    rw [hstranded, hnone, hb, List.append_nil]
    rfl
  case terminated => simp [ht]
  case posts => simp
  case sends => simp
  case apart => simp
  case found => simp
  case listens => simp [hlistening]
  case left => simp
  case ended => simp [hp]

theorem carries_take (hs : s.Wired) (hp : s.engine.phase = .serving) (ha : s.agenda = [])
    (hl : s.listening = false) {t : Task} {i : Intake Task} (hn : s.engine.host.intake.next? 0 = some (t, i))
    {s' : Scene} (hs' : s' = { s with engine := { s.engine with
      host := { s.engine.host with intake := i } } }) (hf : ∀ f, .faulted f ∉ (s'.take t).2) :
    Carries s (s'.take t) := by
  rcases take_cases s' t with ⟨rfl, ht⟩ | ⟨rfl, ht⟩ | ⟨w, chores, hb, ht⟩ | ⟨f, -, ht⟩
  · rw [ht]
    subst hs'
    exact carries_of_next hs hp hn rfl rfl rfl rfl hl rfl (by simp [ha]) (.inr ⟨rfl, ha⟩)
  · rw [ht]
    subst hs'
    exact carries_of_next hs hp hn rfl rfl rfl rfl hl rfl (by simp) (.inl hp)
  · obtain ⟨outs, rfl, -⟩ := Host.turn_of_begin hb
    have hw : w.intake = i := by rw [Host.begin_keeps hb, hs']
    rw [ht]
    subst hs'
    exact carries_of_next hs hp hn hw rfl rfl rfl hl rfl (by simp) (.inl hp)
  · rw [ht] at hf
    exact absurd (List.mem_cons_of_mem _ List.mem_cons_self) (hf f)

/-- A look at the queue that finds nothing. -/
theorem carries_found (hs : s.Wired) (hp : s.engine.phase = .serving) (ha : s.agenda = [])
    (hn : s.engine.host.intake.next? 0 = none) :
    Carries s ({ s with listening := true }, [.foundEmpty]) where
  wired := { hs with listening := fun _ => ⟨hp, ha⟩ }
  flow := List.append_nil _
  terminated := by simp
  posts := by simp
  sends := by simp
  apart := by simp
  found _ := by
    have hserving : Intake.Wired .serving s.engine.host.intake := hp ▸ hs.intake
    have hempty : s.engine.host.intake.pending 0 = [] := Intake.next?_eq_none.mp hn
    refine ⟨rfl, ?_⟩
    change s.stranded ++ _ = []
    rw [hs.stranded (by simp [hp]), hserving.backlog_serving, hempty]
    rfl
  listens _ := .inr rfl
  left := by simp
  ended := by simp [hp]

theorem carries_look (hs : s.Wired) (hf : ∀ f, .faulted f ∉ s.look.2) : Carries s s.look := by
  rcases s.look_cases with h | ⟨ha, hp, hl, ⟨t, i, hn, h⟩ | ⟨hn, h⟩⟩
  · rw [h]
    exact carries_self hs
  · rw [h] at hf ⊢
    exact carries_take hs hp ha hl hn rfl hf
  · rw [h]
    exact carries_found hs hp ha hn

/-- There is no signal, and the dispatcher goes back to its queue. -/
theorem carries_back (hs : s.Wired) : Carries s ({ s with listening := false }, []) where
  wired := { hs with listening := nofun }
  flow := List.append_nil _
  terminated := by simp
  posts := by simp
  sends := by simp
  apart := by simp
  found := by simp
  listens := nofun
  left := by simp
  ended h := ⟨h, rfl, rfl⟩

/-- The dispatcher leaves its loop, and what is in its queue behind. -/
theorem carries_exit (hs : s.Wired) (hl : s.listening = true) (hsig : s.engine.signalled = true) :
    Carries s ({ s with
      engine := s.engine.exit
      listening := false
      stranded := s.engine.host.intake.pending 0 }, [.left]) := by
  obtain ⟨hp, ha⟩ := hs.listening hl
  have hw : Intake.Wired .serving s.engine.host.intake := hp ▸ hs.intake
  have hend := hw.exit (hs.ending (.inl hsig))
  constructor
  case wired =>
    exact {
      intake := hend
      idle := fun _ => ha
      silent := nofun
      ending := fun _ => rfl
      facade := hs.facade
      listening := nofun
      stranded := absurd rfl }
  case flow =>
    change s.stranded ++ s.engine.host.intake.backlog ++ [] =
      [] ++ (s.engine.host.intake.pending 0 ++ (s.engine.host.intake.closeChannel 0).terminate.backlog)
    rw [hs.stranded (by simp [hp]), hw.backlog_serving, hend.backlog_ended.1]
    rfl
  case terminated => exact fun _ => rfl
  case posts => simp
  case sends => simp
  case apart => simp
  case found => simp
  case listens => simp
  case left => exact fun _ => ⟨rfl, hl, rfl⟩
  case ended => simp [hp]

theorem carries_listen (hs : s.Wired) : Carries s s.listen := by
  rcases s.listen_cases with h | ⟨hl, h | ⟨hsig, h⟩⟩
  · rw [h]
    exact carries_self hs
  · rw [h]
    exact carries_back hs
  · rw [h]
    exact carries_exit hs hl hsig

/-- Whatever is done, work is carried on, unless a task takes the dispatcher down. -/
theorem carries_step (hs : s.Wired) (a : Action) (hf : ∀ f, .faulted f ∉ (s.step a).2) :
    Carries s (s.step a) := by
  cases a with
  | call c => exact carries_call hs c
  | proceed n => exact carries_proceed hs n
  | refuse => exact carries_refuse hs
  | signal => exact carries_signal hs
  | construct => exact carries_construct hs
  | install => exact carries_install hs
  | look => exact carries_look hs hf
  | listen => exact carries_listen hs
  | chore => exact carries_chore hs
  | letGo => exact carries_letGo hs
  | encode h part => exact carries_encode hs h part

/-! ### Runs -/

theorem wired_after (hs : s.Wired) {as : List Action} (hf : ∀ f, .faulted f ∉ s.deeds as) :
    (s.after as).Wired := by
  induction as generalizing s with
  | nil => exact hs
  | cons a as ih =>
    simp only [deeds, List.mem_append, not_or] at hf
    exact ih (carries_step hs a fun f => (hf f).1).wired fun f => (hf f).2

/-- What was accepted is what was run and, behind it, what is yet to be run. -/
theorem flow (hs : s.Wired) {as : List Action} (hf : ∀ f, .faulted f ∉ s.deeds as) :
    s.backlog ++ accepted (s.deeds as) = ran (s.deeds as) ++ (s.after as).backlog := by
  induction as generalizing s with
  | nil => exact List.append_nil _
  | cons a as ih =>
    simp only [deeds, List.mem_append, not_or] at hf
    have hstep := carries_step hs a fun f => (hf f).1
    calc s.backlog ++ accepted (s.deeds (a :: as))
        = (s.backlog ++ accepted (s.step a).2) ++ accepted ((s.step a).1.deeds as) := by
          simp only [deeds, accepted_append, List.append_assoc]
      _ = ran (s.step a).2 ++ ((s.step a).1.backlog ++ accepted ((s.step a).1.deeds as)) := by
          rw [hstep.flow, List.append_assoc]
      _ = ran (s.deeds (a :: as)) ++ (s.after (a :: as)).backlog := by
          rw [ih hstep.wired fun f => (hf f).2]
          simp only [deeds, after, ran_append, List.append_assoc]

/-- An engine that refuses calls refuses them for good. -/
theorem posts_refused (hs : s.Wired) {as : List Action} (hf : ∀ f, .faulted f ∉ s.deeds as)
    (ht : s.engine.host.intake.terminated = true) {t : Task} {st : Status}
    (hp : .posted t st ∈ s.deeds as) : st = .error .terminated := by
  induction as generalizing s with
  | nil => cases hp
  | cons a as ih =>
    simp only [deeds, List.mem_append, not_or] at hf hp
    have hstep := carries_step hs a fun f => (hf f).1
    rcases hp with hp | hp
    · exact hstep.posts ht hp
    · exact ih hstep.wired (fun f => (hf f).2) (hstep.terminated (.inl ht)) hp

/-- A dispatcher that has left its loop runs nothing and is given nothing. -/
theorem nothing_after_end (hs : s.Wired) {as : List Action} (hf : ∀ f, .faulted f ∉ s.deeds as)
    (he : s.engine.phase = .ended) :
    (s.after as).engine.phase = .ended ∧ ran (s.deeds as) = [] ∧ accepted (s.deeds as) = [] := by
  induction as generalizing s with
  | nil => exact ⟨he, rfl, rfl⟩
  | cons a as ih =>
    simp only [deeds, List.mem_append, not_or] at hf
    have hstep := carries_step hs a fun f => (hf f).1
    obtain ⟨hend, hran, hsame⟩ := hstep.ended he
    obtain ⟨hafter, hr, ha⟩ := ih hstep.wired (fun f => (hf f).2) hend
    have hacc : accepted (s.step a).2 = [] := by
      have hflow := hstep.flow
      rwa [hran, hsame, List.nil_append, List.append_right_eq_self] at hflow
    exact ⟨hafter, by simp only [deeds, ran_append, hran, hr, List.append_nil],
      by simp only [deeds, accepted_append, hacc, ha, List.append_nil]⟩

/-- A dispatcher that has not left its loop has taken whatever was sent to it. -/
theorem sends_accepted (hs : s.Wired) {as : List Action} (hf : ∀ f, .faulted f ∉ s.deeds as)
    (he : (s.after as).engine.phase ≠ .ended) {b : Bool} {t : Task} {st : Status}
    (hsent : .sent b t st ∈ s.deeds as) : st = .ok () := by
  induction as generalizing s with
  | nil => cases hsent
  | cons a as ih =>
    have hs0 : s.engine.phase ≠ .ended := fun h => he (nothing_after_end hs hf h).1
    simp only [deeds, List.mem_append, not_or] at hf hsent
    have hstep := carries_step hs a fun f => (hf f).1
    rcases hsent with hsent | hsent
    · exact hstep.sends hs0 hsent
    · exact ih hstep.wired (fun f => (hf f).2) he hsent

/-- An engine before anybody has called it. -/
theorem wired_of_start {config : Config} {answers : Bool} {draws : Draws} {e : Engine}
    (he : Engine.start config answers draws = .ok e) : Wired { engine := e } := by
  unfold Engine.start at he
  split at he
  · cases he
  · split at he
    · cases he
    · cases he
      exact {
        intake := .unbuilt [] false
        idle := fun _ => rfl
        silent := fun _ _ => rfl
        ending := by simp
        facade := by simp
        listening := by simp
        stranded := fun _ => rfl }

theorem backlog_of_start {config : Config} {answers : Bool} {draws : Draws} {e : Engine}
    (he : Engine.start config answers draws = .ok e) : backlog { engine := e } = [] := by
  unfold Engine.start at he
  split at he
  · cases he
  · split at he <;> cases he
    rfl

/-- A deed of a run was done in one of its actions, which carries work on. -/
theorem carries_split (hs : s.Wired) {as : List Action} (hf : ∀ f, .faulted f ∉ s.deeds as)
    {before later : List Deed} {d : Deed} (hds : s.deeds as = before ++ d :: later) :
    ∃ xs a ys us vs, as = xs ++ a :: ys ∧ ((s.after xs).step a).2 = us ++ d :: vs ∧
      before = s.deeds xs ++ us ∧ later = vs ++ ((s.after xs).step a).1.deeds ys ∧
      (∀ f, .faulted f ∉ s.deeds xs) ∧ Carries (s.after xs) ((s.after xs).step a) ∧
      ∀ f, .faulted f ∉ ((s.after xs).step a).1.deeds ys := by
  obtain ⟨xs, a, ys, us, vs, rfl, hstep, hbefore, hlater⟩ := deeds_split hds
  rw [show s.after (xs ++ [a]) = ((s.after xs).step a).1 from after_append _ _ _] at hlater
  simp only [deeds_append, deeds, List.mem_append, not_or] at hf
  have hxs := wired_after hs fun f => (hf f).1
  exact ⟨xs, a, ys, us, vs, rfl, hstep, hbefore, hlater, fun f => (hf f).1,
    carries_step hxs a fun f => (hf f).2.1, fun f => (hf f).2.2⟩

/-- When the dispatcher is about to look at the signal, all that was accepted before
its look at the queue has been run, and only others have acted since. -/
theorem listening_split (hs : s.Wired) {as : List Action} (hf : ∀ f, .faulted f ∉ s.deeds as)
    (hl : (s.after as).listening = true) :
    s.listening = true ∧ ByOthers (s.deeds as) ∨
      ∃ early window, s.deeds as = early ++ .foundEmpty :: window ∧ ByOthers window ∧
        s.backlog ++ accepted early = ran early := by
  induction as generalizing s with
  | nil => exact .inl ⟨hl, .nothing⟩
  | cons a as ih =>
    simp only [deeds, List.mem_append, not_or] at hf
    have hstep := carries_step hs a fun f => (hf f).1
    rcases ih hstep.wired (fun f => (hf f).2) hl with ⟨hl', ho⟩ | ⟨early, window, hd, ho, hflow⟩
    · rcases hstep.listens hl' with ⟨hnow, hothers⟩ | hfound
      · exact .inl ⟨hnow, hothers.append ho⟩
      · refine .inr ⟨[], (s.step a).1.deeds as, ?_, ho, ?_⟩
        · rw [deeds, hfound]
          rfl
        · rw [(hstep.found (by simp [hfound])).2]
          rfl
    · refine .inr ⟨(s.step a).2 ++ early, window, ?_, ho, ?_⟩
      · rw [deeds, hd, List.append_assoc]
      · rw [accepted_append, ran_append, ← List.append_assoc, hstep.flow, List.append_assoc, hflow]

/-- When the dispatcher finds its queue empty, all that was accepted has been run. -/
theorem ran_of_foundEmpty (hs : s.Wired) {as : List Action} (hf : ∀ f, .faulted f ∉ s.deeds as)
    {before later : List Deed} (hds : s.deeds as = before ++ .foundEmpty :: later) :
    s.backlog ++ accepted before = ran before := by
  obtain ⟨xs, a, ys, us, vs, rfl, hstep, rfl, -, hxs, hc, -⟩ := carries_split hs hf hds
  obtain ⟨honly, hempty⟩ := hc.found (by simp [hstep])
  obtain ⟨rfl, -⟩ := nothing_beside (hstep.symm.trans honly)
  rw [List.append_nil, flow hs hxs, hempty, List.append_nil]

/-- When the dispatcher leaves its loop, what was accepted until it last looked at its
queue has been run, and what others handed in after that is lost. -/
theorem left_split (hs : s.Wired) (hl : s.listening = false) {as : List Action}
    (hf : ∀ f, .faulted f ∉ s.deeds as) {before later : List Deed}
    (hds : s.deeds as = before ++ .left :: later) :
    ∃ early window, before = early ++ .foundEmpty :: window ∧ ByOthers window ∧
      ran (s.deeds as) = s.backlog ++ accepted early ∧
      accepted (s.deeds as) = accepted early ++ accepted window ∧
      (∀ b t st, .sent b t st ∈ before → st = .ok ()) ∧ ran later = [] ∧ accepted later = [] := by
  obtain ⟨xs, a, ys, us, vs, rfl, hstep, rfl, rfl, hxs, hc, hys⟩ := carries_split hs hf hds
  obtain ⟨honly, hlistening, hended⟩ := hc.left (by simp [hstep])
  obtain ⟨rfl, rfl⟩ := nothing_beside (hstep.symm.trans honly)
  have hserving := ((wired_after hs hxs).listening hlistening).1
  rw [hds, List.append_nil, List.nil_append]
  obtain ⟨-, hran, hacc⟩ := nothing_after_end hc.wired hys hended
  rcases listening_split hs hxs hlistening with ⟨h, -⟩ | ⟨early, window, hd, ho, hearly⟩
  · rw [hl] at h
    cases h
  · have hall : s.deeds xs ++ .left :: ((s.after xs).step a).1.deeds ys =
        early ++ [.foundEmpty] ++ window ++ [.left] ++ ((s.after xs).step a).1.deeds ys := by
      rw [hd]
      simp
    refine ⟨early, window, hd, ho, ?_, ?_, fun b t st => sends_accepted hs hxs (by simp [hserving]),
      hran, hacc⟩
    · rw [hall]
      simp only [ran_append, ran_foundEmpty, ran_left, ho.idle, hran, hearly, List.append_nil]
    · rw [hall]
      simp only [accepted_append, accepted_foundEmpty, accepted_left, hacc, List.append_nil]

/-- What is handed to the engine after a first step of termination is refused. -/
theorem refused_split (hs : s.Wired) {as : List Action} (hf : ∀ f, .faulted f ∉ s.deeds as)
    {before later : List Deed} (hds : s.deeds as = before ++ .refused :: later) {t : Task}
    {st : Status} (hp : .posted t st ∈ later) : st = .error .terminated := by
  obtain ⟨xs, a, ys, us, vs, rfl, hstep, rfl, rfl, -, hc, hys⟩ := carries_split hs hf hds
  have hrefused : .refused ∈ ((s.after xs).step a).2 := by simp [hstep]
  rcases List.mem_append.mp hp with hp | hp
  · have hposted : .posted t st ∈ ((s.after xs).step a).2 := by simp [hstep, hp]
    exact absurd hposted (hc.apart hrefused)
  · exact posts_refused hc.wired hys (hc.terminated (.inr hrefused)) hp

/-- In every order in which threads call an engine, its dispatcher thread builds
the client, installs the dispatcher, takes up tasks and goes on with them, and
the engine is terminated any number of times at any moment, as long as no task
gives up: what was run is at every moment the beginning of what was accepted.
When the dispatcher leaves its loop, what was accepted until it last looked at
its queue has been run, and nothing else is. What is accepted after that look, all
by others than the dispatcher, is lost, and there is no such thing afterwards.
Everything the pipeline sent was accepted, and everything handed in after a
first step of termination is refused. -/
theorem accepted_work_runs_up_to_last_look {config : Config} {answers : Bool}
    {draws : Draws} {e : Engine} (he : Engine.start config answers draws = .ok e)
    (actions : List Action) (hf : ∀ f, .faulted f ∉ deeds { engine := e } actions) :
    ran (deeds { engine := e } actions) <+: accepted (deeds { engine := e } actions) ∧
    (∀ before later, deeds { engine := e } actions = before ++ .left :: later →
      ∃ early window, before = early ++ .foundEmpty :: window ∧ ByOthers window ∧
        ran (deeds { engine := e } actions) = accepted early ∧
        accepted (deeds { engine := e } actions) = accepted early ++ accepted window ∧
        (∀ b t st, .sent b t st ∈ before → st = .ok ()) ∧
        ran later = [] ∧ accepted later = []) ∧
    ∀ before later, deeds { engine := e } actions = before ++ .refused :: later →
      ∀ t st, .posted t st ∈ later → st = .error .terminated := by
  have hw := wired_of_start he
  have hflow := flow hw hf
  rw [backlog_of_start he, List.nil_append] at hflow
  refine ⟨⟨_, hflow.symm⟩, fun before later hds => ?_,
    fun before later hds t st hp => refused_split hw hf hds hp⟩
  have hleft := left_split hw rfl hf hds
  rwa [backlog_of_start he] at hleft

/-- A task that is there when the dispatcher looks is run; one accepted between its
look at the queue and its look at the signal is lost, and a later one is refused. -/
theorem accepted_work_lost_after_last_look :
    ∃ e ds, Engine.start {} false {} = .ok e ∧
      ds = deeds { engine := e } [.call (.post (.operate (.cancel ⟨1⟩))), .proceed 0, .construct,
        .install, .look, .chore, .look, .call (.post (.has ⟨1⟩)), .proceed 1, .refuse,
        .call (.post (.has ⟨2⟩)), .proceed 2, .signal, .listen, .look] ∧
      ds = [.posted (.operate (.cancel ⟨1⟩)) (.ok ()), .ran (.operate (.cancel ⟨1⟩)), .foundEmpty,
        .posted (.has ⟨1⟩) (.ok ()), .refused, .posted (.has ⟨2⟩) (.error .terminated), .left] ∧
      ran ds <+: accepted ds ∧
      (∀ before later, ds = before ++ .left :: later →
        ∃ early window, before = early ++ .foundEmpty :: window ∧ ByOthers window ∧
          ran ds = accepted early ∧ accepted ds = accepted early ++ accepted window ∧
          (∀ b t st, .sent b t st ∈ before → st = .ok ()) ∧
          ran later = [] ∧ accepted later = []) ∧
      ∀ before later, ds = before ++ .refused :: later →
        ∀ t st, .posted t st ∈ later → st = .error .terminated := by
  refine ⟨_, _, rfl, rfl, rfl, @accepted_work_runs_up_to_last_look {} false {} _ rfl _ fun f hf => ?_⟩
  change Deed.faulted f ∈ [.posted (.operate (.cancel ⟨1⟩)) (.ok ()), .ran (.operate (.cancel ⟨1⟩)),
    .foundEmpty, .posted (.has ⟨1⟩) (.ok ()), .refused, .posted (.has ⟨2⟩) (.error .terminated),
    .left] at hf
  simp at hf

end Scene
end HttpExchange
