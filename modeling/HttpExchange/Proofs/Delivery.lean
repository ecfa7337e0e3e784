/-
# What the intake does with accepted work

An intake is given work, dispatchers are installed on it, and it is terminated
or abandoned, in any order and any number of times, while receivers come and go.
A ledger keeps account of this: what was accepted, what has left each queue,
and what was lost. Whatever was accepted waits, or has gone to one queue, or was
lost, once, and in the order of its acceptance (`Ledger.Settled`). Work is lost
when the intake is abandoned, and when a dispatcher is installed whose receiver
is gone.

Key definitions: `Intake.Open`, `Intake.Hands`, `Ledger`, `Ledger.step`,
`Ledger.Settled`, `Ledger.Served`.
Key theorems: `Intake.sendAll_of_open`, `Ledger.settled_step`,
`Ledger.accepted_work_delivered_once`.
-/
import HttpExchange.Intake

namespace HttpExchange

namespace Intake

variable {α : Type} {i j : Intake α} {n : Nat}

/-- The receiver of channel `n` is there. -/
def Open (i : Intake α) (n : Nat) : Prop := ∃ c, i.channels[n]? = some c ∧ c.isOpen = true

/-- `j` is `i` with work behind the queue of channel `n`. -/
structure Hands (i : Intake α) (n : Nat) (as : List α) (j : Intake α) : Prop where
  pending : ∀ k, j.pending k = i.pending k ++ if k = n then as else []
  opens : ∀ k, j.Open k ↔ i.Open k
  rest : { j with channels := i.channels } = i

theorem Hands.nothing (i : Intake α) (n : Nat) : i.Hands n [] i where
  pending k := by by_cases hk : k = n <;> simp [hk]
  opens _ := Iff.rfl
  rest := rfl

theorem Hands.trans {k : Intake α} {as bs : List α} (hij : i.Hands n as j) (hjk : j.Hands n bs k) :
    i.Hands n (as ++ bs) k where
  pending m := by
    rw [hjk.pending, hij.pending, List.append_assoc]
    by_cases hm : m = n <;> simp [hm]
  opens m := (hjk.opens m).trans (hij.opens m)
  rest := by rw [← hij.rest, ← hjk.rest]

section Fields

variable {as : List α}

theorem Hands.waiting (h : i.Hands n as j) : j.waiting = i.waiting := by rw [← h.rest]

theorem Hands.target (h : i.Hands n as j) : j.target = i.target := by rw [← h.rest]

theorem Hands.terminated (h : i.Hands n as j) : j.terminated = i.terminated := by rw [← h.rest]

end Fields

theorem send_of_open (ho : i.Open n) (a : α) : ∃ j, i.send n a = some j ∧ i.Hands n [a] j := by
  obtain ⟨c, hc, hopen⟩ := ho
  have hlt : n < i.channels.length := (List.getElem?_eq_some_iff.mp hc).1
  refine ⟨{ i with channels := i.channels.set n { c with pending := c.pending ++ [a] } }, ?_,
    fun k => ?_, fun k => ?_, rfl⟩
  · unfold send Channel.send
    simp [hc, hopen]
  · unfold pending
    by_cases hk : k = n
    · subst hk
      simp [hc, List.getElem?_set_self hlt]
    · simp [List.getElem?_set_ne (Ne.symm hk), hk]
  · unfold Open
    by_cases hk : k = n
    · subst hk
      simp [hc, List.getElem?_set_self hlt]
    · simp [List.getElem?_set_ne (Ne.symm hk)]

theorem send_of_not_open (ho : ¬ i.Open n) (a : α) : i.send n a = none := by
  unfold send Channel.send
  cases hc : i.channels[n]? with
  | none => rfl
  | some c =>
    have hclosed : c.isOpen = false := by
      rw [Bool.eq_false_iff]
      exact fun hopen => ho ⟨c, hc, hopen⟩
    simp [hclosed]

/-- A queue whose receiver is there takes a whole list. -/
theorem sendAll_of_open (ho : i.Open n) (as : List α) :
    ∃ j, i.sendAll n as = (j, true) ∧ i.Hands n as j := by
  induction as generalizing i with
  | nil => exact ⟨i, rfl, .nothing i n⟩
  | cons a as ih =>
    obtain ⟨j, hs, hj⟩ := send_of_open ho a
    obtain ⟨k, hall, hk⟩ := ih ((hj.opens n).mpr ho)
    refine ⟨k, ?_, hj.trans hk⟩
    unfold sendAll
    rw [hs]
    exact hall

/-- A queue whose receiver is gone takes nothing. -/
theorem sendAll_of_not_open (ho : ¬ i.Open n) (as : List α) :
    i.sendAll n as = (i, as.isEmpty) := by
  cases as with
  | nil => rfl
  | cons a as =>
    unfold sendAll
    rw [send_of_not_open ho]
    rfl

/-- What was taken in full was handed over in full. -/
theorem hands_of_sendAll {as : List α} (h : i.sendAll n as = (j, true)) : i.Hands n as j := by
  by_cases ho : i.Open n
  · obtain ⟨k, hs, hk⟩ := sendAll_of_open ho as
    obtain rfl : j = k := congrArg Prod.fst (h.symm.trans hs)
    exact hk
  · rw [sendAll_of_not_open ho, Prod.mk.injEq, List.isEmpty_iff] at h
    obtain ⟨rfl, rfl⟩ := h
    exact .nothing i n

/-! ### What becomes of a call -/

/-- What becomes of a piece of work. -/
inductive Posts (i : Intake α) (a : α) : Intake α → Status → Prop
  | refused : Posts i a i (.error .terminated)
  | passed {j : Intake α} {t : Target} : i.terminated = false → i.target = some t →
      i.Hands t.channel [a] j → Posts i a j (.ok ())
  | kept : i.terminated = false → i.target = none →
      Posts i a { i with waiting := i.waiting ++ [a] } (.ok ())

theorem post_spec (i : Intake α) (a : α) : Posts i a (i.post a).1 (i.post a).2 := by
  unfold post
  split
  · exact .refused
  · rename_i hterm
    rw [Bool.not_eq_true] at hterm
    split
    · rename_i t ht
      by_cases ho : i.Open t.channel
      · obtain ⟨j, hs, hj⟩ := send_of_open ho a
        rw [hs]
        exact .passed hterm ht hj
      · rw [send_of_not_open ho]
        exact .refused
    · rename_i ht
      exact .kept hterm ht

/-- What becomes of an installation. -/
inductive Starts (i : Intake α) (t : Target) : Intake α → Prop
  /-- What waits is handed over, and the dispatcher installed unless the intake
  was terminated. -/
  | flushed {j : Intake α} : i.Hands t.channel i.waiting j → (i.waiting ≠ [] → i.Open t.channel) →
      Starts i t { j with
        waiting := [], target := if i.terminated then i.target else some t }
  /-- The receiver is gone. -/
  | failed : ¬ i.Open t.channel → i.waiting ≠ [] →
      Starts i t { i with waiting := [], terminated := true }

theorem start_spec (i : Intake α) (t : Target) : Starts i t (i.start t) := by
  have flushed {j : Intake α} (hj : i.Hands t.channel i.waiting j)
      (ho : i.waiting ≠ [] → i.Open t.channel) :
      Starts i t (if j.terminated then { j with waiting := [] }
        else { j with waiting := [], target := some t }) := by
    have h := Starts.flushed hj ho
    rw [← hj.terminated, ← hj.target] at h
    split
    · rename_i hterm
      rwa [if_pos hterm] at h
    · rename_i hterm
      rwa [if_neg hterm] at h
  unfold start
  by_cases ho : i.Open t.channel
  · obtain ⟨j, hs, hj⟩ := sendAll_of_open ho i.waiting
    rw [hs]
    exact flushed hj fun _ => ho
  · rw [sendAll_of_not_open ho]
    by_cases hw : i.waiting = []
    · rw [hw]
      exact flushed (hw ▸ .nothing i t.channel) fun hne => absurd hw hne
    · rw [List.isEmpty_eq_false_iff.mpr hw]
      exact .failed ho hw

/-! ### What receivers do -/

theorem pending_closeChannel (i : Intake α) (n k : Nat) :
    (i.closeChannel n).pending k = if k = n then [] else i.pending k := by
  unfold closeChannel pending
  by_cases hk : k = n
  · subst hk
    rw [if_pos rfl]
    cases hc : i.channels[k]? <;> simp [hc, Channel.close]
  · rw [if_neg hk]
    simp [Ne.symm hk]

theorem pending_addChannel (i : Intake α) (k : Nat) : (i.addChannel).pending k = i.pending k := by
  unfold addChannel pending
  by_cases hk : k < i.channels.length
  · rw [List.getElem?_append_left hk]
  · have hnone : i.channels[k]? = none := List.getElem?_eq_none (by omega)
    rw [List.getElem?_append_right (by omega), hnone]
    cases k - i.channels.length <;> rfl

/-- A receiver takes the first piece of work off its channel. -/
theorem of_next? {a : α} (h : i.next? n = some (a, j)) :
    ∃ c rest, i.channels[n]? = some c ∧ c.pending = a :: rest ∧
      j = { i with channels := i.channels.set n { c with pending := rest } } := by
  unfold next? at h
  cases hc : i.channels[n]? with
  | none => simp [hc] at h
  | some c =>
    simp only [hc, Option.bind_eq_bind, Option.bind_some, Channel.next?] at h
    cases hp : c.pending with
    | nil => simp [hp] at h
    | cons b rest =>
      simp only [hp, Option.bind_some, Option.pure_def, Option.some.injEq, Prod.mk.injEq] at h
      obtain ⟨rfl, rfl⟩ := h
      exact ⟨c, rest, rfl, hp, rfl⟩

/-- All else is left alone. -/
theorem pending_next? {a : α} (h : i.next? n = some (a, j)) :
    (∀ k, i.pending k = (if k = n then [a] else []) ++ j.pending k) ∧
      { j with channels := i.channels } = i := by
  obtain ⟨c, rest, hc, hp, rfl⟩ := of_next? h
  have hlt : n < i.channels.length := (List.getElem?_eq_some_iff.mp hc).1
  refine ⟨fun k => ?_, rfl⟩
  unfold pending
  by_cases hk : k = n
  · subst hk
    simp [hc, hp, List.getElem?_set_self hlt]
  · simp [List.getElem?_set_ne (Ne.symm hk), hk]

end Intake

/-! ### The ledger -/

/-- A call on an intake, or what a receiver does. -/
inductive Intake.Step (α : Type)
  | post (a : α)
  | start (t : Target)
  /-- A start during which the receiver goes, once `k` pieces are handed over. -/
  | startCut (t : Target) (k : Nat)
  | terminate
  | abandon
  /-- A new channel. -/
  | connect
  /-- The receiver of a channel takes a piece of work. -/
  | receive (n : Nat)
  /-- It goes. -/
  | close (n : Nat)

/-- The step installs a dispatcher. -/
def Intake.Step.isStart {α : Type} : Intake.Step α → Bool
  | start _ | startCut _ _ => true
  | _ => false

/-- An intake, and the account of the work that was handed to it. -/
structure Ledger (α : Type) where
  intake : Intake α := {}
  /-- The work that was accepted. -/
  accepted : List α := []
  /-- What has left each queue: it was taken, or went with the receiver. -/
  left : Nat → List α := fun _ => []
  /-- What waited when the intake was abandoned, or when a receiver was gone. -/
  lost : List α := []

namespace Ledger

variable {α : Type}

/-- What was put into the queue of channel `n` so far. -/
def delivered (g : Ledger α) (n : Nat) : List α := g.left n ++ g.intake.pending n

def post (g : Ledger α) (a : α) : Ledger α :=
  match g.intake.post a with
  | (i, .ok ()) => { g with intake := i, accepted := g.accepted ++ [a] }
  | (i, .error _) => { g with intake := i }

def start (g : Ledger α) (t : Target) : Ledger α where
  intake := g.intake.start t
  accepted := g.accepted
  left := g.left
  lost := if (g.intake.sendAll t.channel g.intake.waiting).2 then g.lost
    else g.lost ++ g.intake.waiting

def close (g : Ledger α) (n : Nat) : Ledger α where
  intake := g.intake.closeChannel n
  accepted := g.accepted
  left k := g.left k ++ if k = n then g.intake.pending n else []
  lost := g.lost

def startCut (g : Ledger α) (t : Target) (k : Nat) : Ledger α :=
  match g.intake.sendAll t.channel (g.intake.waiting.take k) with
  | (i, true) =>
    ({ g with intake := { i with waiting := g.intake.waiting.drop k } }.close t.channel).start t
  | (_, false) => g.start t

def receive (g : Ledger α) (n : Nat) : Ledger α :=
  match g.intake.next? n with
  | some (a, i) =>
    { g with intake := i, left := fun k => g.left k ++ if k = n then [a] else [] }
  | none => g

/-- One step, with its account. -/
def step (g : Ledger α) : Intake.Step α → Ledger α
  | .post a => g.post a
  | .start t => g.start t
  | .startCut t k => g.startCut t k
  | .terminate => { g with intake := g.intake.terminate }
  | .abandon => { g with intake := g.intake.abandon, lost := g.lost ++ g.intake.waiting }
  | .connect => { g with intake := g.intake.addChannel }
  | .receive n => g.receive n
  | .close n => g.close n

/-- A list of steps. -/
def run (g : Ledger α) (steps : List (Intake.Step α)) : Ledger α := steps.foldl step g

theorem run_append (g : Ledger α) (xs ys : List (Intake.Step α)) :
    g.run (xs ++ ys) = (g.run xs).run ys := List.foldl_append ..

/-- What becomes of a ledger when work is handed in. -/
inductive Books (g : Ledger α) (a : α) : Ledger α → Prop
  | refused : Books g a g
  | passed {i : Intake α} {t : Target} : g.intake.terminated = false → g.intake.target = some t →
      g.intake.Hands t.channel [a] i →
      Books g a { g with intake := i, accepted := g.accepted ++ [a] }
  | kept : g.intake.terminated = false → g.intake.target = none →
      Books g a { g with
        intake := { g.intake with waiting := g.intake.waiting ++ [a] }
        accepted := g.accepted ++ [a] }

theorem books_post (g : Ledger α) (a : α) : g.Books a (g.post a) := by
  have hspec := g.intake.post_spec a
  unfold post
  generalize g.intake.post a = r at hspec
  obtain ⟨i, status⟩ := r
  dsimp only at hspec ⊢
  cases hspec with
  | refused => exact .refused
  | passed hterm ht hi => exact .passed hterm ht hi
  | kept hterm ht => exact .kept hterm ht

/-! ### Ledgers that say the same -/

/-- Only what receivers do tells the ledgers apart. -/
structure Alike (g h : Ledger α) : Prop where
  accepted : h.accepted = g.accepted
  waiting : h.intake.waiting = g.intake.waiting
  delivered : ∀ n, h.delivered n = g.delivered n
  lost : h.lost = g.lost
  target : h.intake.target = g.intake.target
  terminated : h.intake.terminated = g.intake.terminated

theorem alike_close (g : Ledger α) (n : Nat) : g.Alike (g.close n) where
  accepted := rfl
  waiting := rfl
  delivered k := by
    change (g.left k ++ if k = n then g.intake.pending n else []) ++
      (g.intake.closeChannel n).pending k = g.left k ++ g.intake.pending k
    rw [Intake.pending_closeChannel]
    by_cases hk : k = n <;> simp [hk]
  lost := rfl
  target := rfl
  terminated := rfl

theorem alike_receive (g : Ledger α) (n : Nat) : g.Alike (g.receive n) := by
  unfold receive
  cases hn : g.intake.next? n with
  | none => exact ⟨rfl, rfl, fun _ => rfl, rfl, rfl, rfl⟩
  | some r =>
    obtain ⟨a, i⟩ := r
    obtain ⟨hp, hrest⟩ := Intake.pending_next? hn
    refine ⟨rfl, by rw [← hrest], fun k => ?_, rfl, by rw [← hrest], by rw [← hrest]⟩
    unfold delivered
    rw [hp, List.append_assoc]

theorem alike_connect (g : Ledger α) : g.Alike (g.step .connect) where
  accepted := rfl
  waiting := rfl
  delivered n := congrArg _ (g.intake.pending_addChannel n)
  lost := rfl
  target := rfl
  terminated := rfl

/-! ### The account -/

/-- What became of accepted work that waits no more. -/
inductive Fate
  | queue (n : Nat)
  | lost
  deriving DecidableEq

/-- The work that met a fate. -/
def met (done : List (α × Fate)) (f : Fate) : List α :=
  (done.filter fun d => d.2 = f).map Prod.fst

theorem met_append (xs ys : List (α × Fate)) (f : Fate) :
    met (xs ++ ys) f = met xs f ++ met ys f := by
  unfold met
  rw [List.filter_append, List.map_append]

theorem met_same (as : List α) (e f : Fate) :
    met (as.map fun a => (a, e)) f = if f = e then as else [] := by
  unfold met
  by_cases hf : f = e
  · subst hf
    rw [if_pos rfl]
    induction as with
    | nil => rfl
    | cons a as ih => simpa using ih
  · rw [if_neg hf]
    simp [Ne.symm hf]

/-- The account of a ledger: accepted work waits, or met the fate noted. -/
structure Settled (g : Ledger α) (done : List (α × Fate)) : Prop where
  accepted : g.accepted = done.map Prod.fst ++ g.intake.waiting
  delivered : ∀ n, g.delivered n = met done (.queue n)
  lost : g.lost = met done .lost
  empty : g.intake.target ≠ none → g.intake.waiting = []
  shut : g.intake.terminated = true → g.intake.target = none

section Settled

variable {g h : Ledger α} {done : List (α × Fate)}

/-- Work is accepted behind what waits, and what comes first meets its fate. -/
theorem Settled.moves (hg : g.Settled done) (f : Fate) (as bs : List α)
    (ha : h.accepted = g.accepted ++ as)
    (hw : g.intake.waiting ++ as = bs ++ h.intake.waiting)
    (hd : ∀ n, h.delivered n = g.delivered n ++ if Fate.queue n = f then bs else [])
    (hl : h.lost = g.lost ++ if Fate.lost = f then bs else [])
    (he : h.intake.target ≠ none → h.intake.waiting = [])
    (ho : h.intake.terminated = true → h.intake.target = none) :
    ∃ done, h.Settled done := by
  refine ⟨done ++ bs.map fun b => (b, f), ?_, fun n => ?_, ?_, he, ho⟩
  · calc h.accepted
      _ = (done.map Prod.fst ++ g.intake.waiting) ++ as := by rw [ha, hg.accepted]
      _ = done.map Prod.fst ++ (bs ++ h.intake.waiting) := by rw [List.append_assoc, hw]
      _ = (done ++ bs.map fun b => (b, f)).map Prod.fst ++ h.intake.waiting := by
        simp [Function.comp_def]
  · rw [hd, hg.delivered, met_append, met_same]
  · rw [hl, hg.lost, met_append, met_same]

theorem Settled.alike (hg : g.Settled done) (hh : g.Alike h) : h.Settled done where
  accepted := by rw [hh.accepted, hh.waiting, hg.accepted]
  delivered n := by rw [hh.delivered, hg.delivered]
  lost := by rw [hh.lost, hg.lost]
  empty hne := by rw [hh.waiting, hg.empty (hh.target ▸ hne)]
  shut hterm := by rw [hh.target, hg.shut (hh.terminated ▸ hterm)]

theorem settled_post (hg : g.Settled done) (a : α) : ∃ done, (g.post a).Settled done := by
  have hbooks := g.books_post a
  generalize g.post a = h at hbooks ⊢
  cases hbooks with
  | refused => exact ⟨done, hg⟩
  | @passed _ t hterm ht hi =>
    have hwait : g.intake.waiting = [] := hg.empty (by simp [ht])
    refine hg.moves (.queue t.channel) [a] [a] rfl ?_ (fun n => ?_) (by simp)
      (fun _ => ?_) fun hlater => ?_
    · rw [hi.waiting, hwait]
      rfl
    · unfold delivered
      rw [hi.pending, ← List.append_assoc]
      simp only [Fate.queue.injEq]
    · rw [hi.waiting, hwait]
    · rw [hi.terminated, hterm] at hlater
      cases hlater
  | kept hterm ht =>
    refine hg.moves .lost [a] [] rfl rfl (fun n => ?_) (by simp) (fun hne => absurd ht hne)
      fun _ => ht
    simp [delivered, Intake.pending]

theorem settled_start (hg : g.Settled done) (t : Target) : ∃ done, (g.start t).Settled done := by
  have hspec := g.intake.start_spec t
  have hlost : (g.start t).lost = if (g.intake.sendAll t.channel g.intake.waiting).2 then g.lost
    else g.lost ++ g.intake.waiting := rfl
  have hdelivered (n : Nat) : (g.start t).delivered n =
    g.left n ++ (g.intake.start t).pending n := rfl
  have hintake : (g.start t).intake = g.intake.start t := rfl
  generalize g.intake.start t = i at hspec hdelivered hintake
  cases hspec with
  | @flushed j hj ho =>
    have hall : (g.intake.sendAll t.channel g.intake.waiting).2 = true := by
      by_cases hopen : g.intake.Open t.channel
      · obtain ⟨_, hs, -⟩ := Intake.sendAll_of_open hopen g.intake.waiting
        rw [hs]
      · rw [Intake.sendAll_of_not_open hopen, List.isEmpty_iff]
        exact Classical.byContradiction fun hne => hopen (ho hne)
    refine hg.moves (.queue t.channel) [] g.intake.waiting (by simp [start]) (by rw [hintake])
      (fun n => ?_) (by rw [hlost, hall]; simp) (fun _ => by rw [hintake]) fun hlater => ?_
    · have hpending := hj.pending n
      rw [hdelivered]
      unfold delivered
      simp only [Fate.queue.injEq, List.append_assoc]
      rw [← hpending]
      rfl
    · rw [hintake] at hlater ⊢
      have hterm : g.intake.terminated = true := hj.terminated ▸ hlater
      dsimp only
      rw [if_pos hterm, hg.shut hterm]
  | failed hopen hne =>
    have hnone : (g.intake.sendAll t.channel g.intake.waiting).2 = false := by
      rw [Intake.sendAll_of_not_open hopen]
      exact List.isEmpty_eq_false_iff.mpr hne
    have htarget : g.intake.target = none :=
      Classical.byContradiction fun ht => hne (hg.empty ht)
    refine hg.moves .lost [] g.intake.waiting (by simp [start]) (by rw [hintake])
      (fun n => ?_) (by rw [hlost, hnone]; simp) (fun _ => by rw [hintake]) fun _ => ?_
    · rw [hdelivered]
      simp [delivered, Intake.pending]
    · rw [hintake]
      exact htarget

/-- A start that is cut short hands over the first pieces like any start; what
follows is a start that finds the receiver gone. -/
theorem settled_startCut (hg : g.Settled done) (t : Target) (k : Nat) :
    ∃ done, (g.startCut t k).Settled done := by
  unfold startCut
  split
  · rename_i i hs
    have hi := Intake.hands_of_sendAll hs
    have hcut : ∃ done, Settled { g with intake := { i with
        waiting := g.intake.waiting.drop k } } done := by
      refine hg.moves (.queue t.channel) [] (g.intake.waiting.take k) (by simp) ?_ (fun n => ?_)
        (by simp) (fun hne => ?_) fun hterm => ?_
      · simp
      · have hpending := hi.pending n
        unfold delivered
        simp only [Fate.queue.injEq, List.append_assoc]
        rw [← hpending]
        rfl
      · rw [hg.empty (hi.target ▸ hne), List.drop_nil]
      · rw [← hg.shut (hi.terminated ▸ hterm)]
        exact hi.target
    obtain ⟨_, hcut⟩ := hcut
    exact settled_start (hcut.alike (alike_close _ t.channel)) t
  · exact settled_start hg t

theorem settled_step (hg : g.Settled done) (s : Intake.Step α) :
    ∃ done, (g.step s).Settled done := by
  cases s with
  | post a => exact settled_post hg a
  | start t => exact settled_start hg t
  | startCut t k => exact settled_startCut hg t k
  | receive n => exact ⟨done, hg.alike (g.alike_receive n)⟩
  | close n => exact ⟨done, hg.alike (g.alike_close n)⟩
  | connect => exact ⟨done, hg.alike g.alike_connect⟩
  | terminate =>
    exact hg.moves .lost [] [] (by simp [step]) (by simp [step, Intake.terminate])
      (fun n => by simp [step, delivered, Intake.pending, Intake.terminate]) (by simp [step])
      (fun hne => absurd rfl hne) fun _ => rfl
  | abandon =>
    exact hg.moves .lost [] g.intake.waiting (by simp [step])
      (by simp [step, Intake.abandon, Intake.terminate])
      (fun n => by simp [step, delivered, Intake.pending, Intake.abandon, Intake.terminate])
      (by simp [step]) (fun hne => absurd rfl hne) fun _ => rfl

theorem settled_run (hg : g.Settled done) (steps : List (Intake.Step α)) :
    ∃ done, (g.run steps).Settled done := by
  induction steps generalizing g done with
  | nil => exact ⟨done, hg⟩
  | cons s steps ih =>
    obtain ⟨_, hs⟩ := settled_step hg s
    exact ih hs

theorem settled_empty : ({} : Ledger α).Settled [] where
  accepted := rfl
  delivered _ := rfl
  lost := rfl
  empty _ := rfl
  shut _ := rfl

end Settled

/-! ### The end of an intake -/

/-- The intake has ended: nothing is accepted, and no dispatcher is installed. -/
structure Over (g : Ledger α) : Prop where
  terminated : g.intake.terminated = true
  target : g.intake.target = none

section Over

variable {g : Ledger α}

theorem Over.post_refused (hg : g.Over) (a : α) :
    g.intake.post a = (g.intake, .error .terminated) := by
  unfold Intake.post
  rw [if_pos hg.terminated]

theorem Over.start (hg : g.Over) (t : Target) : (g.start t).Over := by
  have hspec := g.intake.start_spec t
  have hintake : (g.start t).intake = g.intake.start t := rfl
  generalize g.intake.start t = i at hspec hintake
  cases hspec with
  | flushed hj _ =>
    refine ⟨?_, ?_⟩
    · rw [hintake]
      exact hj.terminated.trans hg.terminated
    · rw [hintake]
      dsimp only
      rw [if_pos hg.terminated, hg.target]
  | failed _ _ => exact ⟨by rw [hintake], by rw [hintake]; exact hg.target⟩

theorem Over.startCut (hg : g.Over) (t : Target) (k : Nat) : (g.startCut t k).Over := by
  unfold Ledger.startCut
  split
  · rename_i i hs
    have hi := Intake.hands_of_sendAll hs
    refine Over.start ⟨?_, ?_⟩ t
    · exact hi.terminated.trans hg.terminated
    · exact hi.target.trans hg.target
  · exact hg.start t

theorem Over.alike {h : Ledger α} (hg : g.Over) (hh : g.Alike h) : h.Over :=
  ⟨hh.terminated.trans hg.terminated, hh.target.trans hg.target⟩

theorem accepted_startCut (g : Ledger α) (t : Target) (k : Nat) :
    (g.startCut t k).accepted = g.accepted := by
  unfold Ledger.startCut
  split <;> rfl

/-- An intake that has ended stays so, whatever is installed on it. -/
theorem Over.step (hg : g.Over) (s : Intake.Step α) :
    (g.step s).Over ∧ (g.step s).accepted = g.accepted := by
  cases s with
  | post a =>
    have hpost : g.step (.post a) = g := by
      change g.post a = g
      unfold Ledger.post
      rw [hg.post_refused a]
    rw [hpost]
    exact ⟨hg, rfl⟩
  | start t => exact ⟨hg.start t, rfl⟩
  | startCut t k => exact ⟨hg.startCut t k, g.accepted_startCut t k⟩
  | terminate | abandon => exact ⟨⟨rfl, rfl⟩, rfl⟩
  | connect => exact ⟨hg.alike g.alike_connect, rfl⟩
  | receive n => exact ⟨hg.alike (g.alike_receive n), (g.alike_receive n).accepted⟩
  | close n => exact ⟨hg.alike (g.alike_close n), rfl⟩

theorem Over.run (hg : g.Over) (steps : List (Intake.Step α)) :
    (g.run steps).Over ∧ (g.run steps).accepted = g.accepted := by
  induction steps generalizing g with
  | nil => exact ⟨hg, rfl⟩
  | cons s steps ih =>
    obtain ⟨hs, ha⟩ := hg.step s
    obtain ⟨hr, hra⟩ := ih hs
    exact ⟨hr, hra.trans ha⟩

end Over

/-! ### One live start -/

/-- No dispatcher was installed so far, and all that was accepted waits. -/
structure Idle (g : Ledger α) : Prop where
  target : g.intake.target = none
  kept : g.accepted = g.intake.waiting
  untouched : ∀ n, g.delivered n = []

/-- All that was accepted has gone to channel `n`, and nothing else will. -/
structure Served (g : Ledger α) (n : Nat) : Prop where
  all : g.delivered n = g.accepted
  only : ∀ k, k ≠ n → g.delivered k = []
  waiting : g.intake.waiting = []
  target : ∀ t, g.intake.target = some t → t.channel = n
  ended : g.intake.target = none → g.intake.terminated = true

section Served

variable {g h : Ledger α} {n : Nat}

theorem Idle.alike (hg : g.Idle) (hh : g.Alike h) : h.Idle where
  target := hh.target.trans hg.target
  kept := by rw [hh.accepted, hh.waiting, hg.kept]
  untouched k := by rw [hh.delivered, hg.untouched]

theorem Served.alike (hg : g.Served n) (hh : g.Alike h) : h.Served n where
  all := by rw [hh.delivered, hh.accepted, hg.all]
  only k hk := by rw [hh.delivered, hg.only k hk]
  waiting := by rw [hh.waiting, hg.waiting]
  target t ht := hg.target t (hh.target ▸ ht)
  ended ht := by rw [hh.terminated, hg.ended (hh.target ▸ ht)]

theorem Idle.step (hg : g.Idle) {s : Intake.Step α} (hs : s.isStart = false) (ha : s ≠ .abandon) :
    (g.step s).Idle := by
  cases s with
  | start _ | startCut _ _ => cases hs
  | abandon => exact absurd rfl ha
  | terminate => exact ⟨rfl, hg.kept, hg.untouched⟩
  | connect => exact hg.alike g.alike_connect
  | receive k => exact hg.alike (g.alike_receive k)
  | close k => exact hg.alike (g.alike_close k)
  | post a =>
    change (g.post a).Idle
    have hbooks := g.books_post a
    generalize g.post a = h at hbooks ⊢
    cases hbooks with
    | refused => exact hg
    | passed _ ht _ =>
      rw [hg.target] at ht
      cases ht
    | kept _ ht => exact ⟨ht, congrArg (· ++ [a]) hg.kept, hg.untouched⟩

theorem Idle.start (hg : g.Idle) {t : Target} (ho : g.intake.Open t.channel) :
    (g.start t).Served t.channel := by
  have hspec := g.intake.start_spec t
  have hdelivered (k : Nat) : (g.start t).delivered k =
    g.left k ++ (g.intake.start t).pending k := rfl
  have hintake : (g.start t).intake = g.intake.start t := rfl
  generalize g.intake.start t = i at hspec hdelivered hintake
  cases hspec with
  | failed hno _ => exact absurd ho hno
  | @flushed j hj _ =>
    have hmoved (k : Nat) : (g.start t).delivered k =
        if k = t.channel then g.intake.waiting else [] := by
      rw [hdelivered]
      change g.left k ++ j.pending k = _
      rw [hj.pending, ← List.append_assoc]
      change g.delivered k ++ _ = _
      rw [hg.untouched, List.nil_append]
    refine ⟨?_, fun k hk => ?_, ?_, fun u hu => ?_, fun hnone => ?_⟩
    · rw [hmoved, if_pos rfl]
      exact hg.kept.symm
    · rw [hmoved, if_neg hk]
    · rw [hintake]
    · rw [hintake] at hu
      dsimp only at hu
      split at hu
      · rw [hg.target] at hu
        cases hu
      · cases hu
        rfl
    · rw [hintake] at hnone ⊢
      dsimp only at hnone ⊢
      split at hnone
      · rename_i hterm
        exact hj.terminated.trans hterm
      · cases hnone

theorem Served.step (hg : g.Served n) {s : Intake.Step α} (hs : s.isStart = false) :
    (g.step s).Served n := by
  cases s with
  | start _ | startCut _ _ => cases hs
  | terminate => exact ⟨hg.all, hg.only, hg.waiting, fun _ ht => (by cases ht), fun _ => rfl⟩
  | abandon => exact ⟨hg.all, hg.only, rfl, fun _ ht => (by cases ht), fun _ => rfl⟩
  | connect => exact hg.alike g.alike_connect
  | receive k => exact hg.alike (g.alike_receive k)
  | close k => exact hg.alike (g.alike_close k)
  | post a =>
    change (g.post a).Served n
    have hbooks := g.books_post a
    generalize g.post a = h at hbooks ⊢
    cases hbooks with
    | refused => exact hg
    | kept hterm ht =>
      rw [hg.ended ht] at hterm
      cases hterm
    | @passed i t hterm ht hi =>
      have hchannel : t.channel = n := hg.target t ht
      have hmoved (k : Nat) : g.left k ++ i.pending k =
          g.delivered k ++ if k = n then [a] else [] := by
        rw [hi.pending, hchannel, ← List.append_assoc]
        rfl
      refine ⟨(hmoved n).trans ?_, fun k hk => (hmoved k).trans ?_, hi.waiting.trans hg.waiting,
        fun u hu => hg.target u (hi.target ▸ hu), fun hnone => ?_⟩
      · rw [if_pos rfl, hg.all]
      · rw [if_neg hk, hg.only k hk]
        rfl
      · rw [hi.target, ht] at hnone
        cases hnone

theorem Idle.run (hg : g.Idle) {steps : List (Intake.Step α)}
    (hs : ∀ s ∈ steps, s.isStart = false ∧ s ≠ .abandon) : (g.run steps).Idle := by
  induction steps generalizing g with
  | nil => exact hg
  | cons s steps ih =>
    obtain ⟨hstart, habandon⟩ := hs s (by simp)
    exact ih (hg.step hstart habandon) fun u hu => hs u (by simp [hu])

theorem Served.run (hg : g.Served n) {steps : List (Intake.Step α)}
    (hs : ∀ s ∈ steps, s.isStart = false) : (g.run steps).Served n := by
  induction steps generalizing g with
  | nil => exact hg
  | cons s steps ih => exact ih (hg.step (hs s (by simp))) fun u hu => hs u (by simp [hu])

end Served

/-! ### What is lost -/

theorem lost_start (g : Ledger α) (t : Target) :
    ∃ more, (g.start t).lost = g.lost ++ more ∧ more <:+ g.intake.waiting ∧
      (more ≠ [] → ¬ g.intake.Open t.channel) := by
  unfold Ledger.start
  by_cases ho : g.intake.Open t.channel
  · obtain ⟨_, hs, -⟩ := Intake.sendAll_of_open ho g.intake.waiting
    rw [hs]
    exact ⟨[], by simp, List.nil_suffix, fun hne => absurd rfl hne⟩
  · rw [Intake.sendAll_of_not_open ho]
    refine ⟨g.intake.waiting, ?_, List.suffix_refl _, fun _ => ho⟩
    by_cases hw : g.intake.waiting = []
    · simp [hw]
    · simp [hw]

/-- Accepted work is lost only while it waits: when the intake is abandoned, and
when an installation finds the receiver gone. -/
theorem lost_step (g : Ledger α) (s : Intake.Step α) :
    ∃ more, (g.step s).lost = g.lost ++ more ∧ more <:+ g.intake.waiting ∧
      (more ≠ [] → s = .abandon ∨ (∃ t, s = .start t ∧ ¬ g.intake.Open t.channel) ∨
        ∃ t k, s = .startCut t k) := by
  have nothing (hl : (g.step s).lost = g.lost) : ∃ more, (g.step s).lost = g.lost ++ more ∧
      more <:+ g.intake.waiting ∧ (more ≠ [] → s = .abandon ∨
        (∃ t, s = .start t ∧ ¬ g.intake.Open t.channel) ∨ ∃ t k, s = .startCut t k) :=
    ⟨[], by rw [hl, List.append_nil], List.nil_suffix, fun hne => absurd rfl hne⟩
  cases s with
  | terminate | connect | close _ => exact nothing rfl
  | receive n => exact nothing (g.alike_receive n).lost
  | post a =>
    apply nothing
    change (g.post a).lost = g.lost
    unfold Ledger.post
    split <;> rfl
  | abandon => exact ⟨g.intake.waiting, rfl, List.suffix_refl _, fun _ => .inl rfl⟩
  | start t =>
    obtain ⟨more, hl, hsuffix, ho⟩ := g.lost_start t
    exact ⟨more, hl, hsuffix, fun hne => .inr (.inl ⟨t, rfl, ho hne⟩)⟩
  | startCut t k =>
    have cut (h : Ledger α) (hl : h.lost = g.lost) (hw : h.intake.waiting <:+ g.intake.waiting) :
        ∃ more, (h.start t).lost = g.lost ++ more ∧ more <:+ g.intake.waiting := by
      obtain ⟨more, hmore, hsuffix, -⟩ := h.lost_start t
      exact ⟨more, by rw [hmore, hl], hsuffix.trans hw⟩
    have hcut : ∃ more, (g.startCut t k).lost = g.lost ++ more ∧ more <:+ g.intake.waiting := by
      unfold Ledger.startCut
      split
      · exact cut _ rfl (List.drop_suffix k _)
      · exact cut g rfl (List.suffix_refl _)
    obtain ⟨more, hl, hsuffix⟩ := hcut
    exact ⟨more, hl, hsuffix, fun _ => .inr (.inr ⟨t, k, rfl⟩)⟩

/-- Whatever is done with an intake and its receivers, each piece of accepted
work waits, or was put into one queue, or was lost, once, and each in the order
of acceptance. Nothing waits while a dispatcher is installed. Work is lost when
the intake is abandoned, and when an installation finds the receiver gone. Once
terminated or abandoned, the intake accepts nothing more, whatever is installed.
With one installation, of a dispatcher whose receiver is there, all that is
accepted goes to its queue. -/
theorem accepted_work_delivered_once (steps : List (Intake.Step α)) :
    let g := ({} : Ledger α).run steps
    (∃ done, g.accepted = done.map Prod.fst ++ g.intake.waiting ∧
      (∀ n, g.delivered n = met done (.queue n)) ∧ g.lost = met done .lost) ∧
    (g.intake.isRunning = true → g.intake.waiting = []) ∧
    (∀ before s later, steps = before ++ s :: later →
      ∃ more, (({} : Ledger α).run (before ++ [s])).lost =
          (({} : Ledger α).run before).lost ++ more ∧
        more <:+ (({} : Ledger α).run before).intake.waiting ∧
        (more ≠ [] → s = .abandon ∨
          (∃ t, s = .start t ∧ ¬ (({} : Ledger α).run before).intake.Open t.channel) ∨
          ∃ t k, s = .startCut t k)) ∧
    (∀ before s later, steps = before ++ s :: later → s = .terminate ∨ s = .abandon →
      g.intake.isRunning = false ∧ g.accepted = (({} : Ledger α).run before).accepted ∧
        ∀ a, g.intake.post a = (g.intake, .error .terminated)) ∧
    ∀ before t later, steps = before ++ .start t :: later →
      (∀ s ∈ before, s.isStart = false ∧ s ≠ .abandon) → (∀ s ∈ later, s.isStart = false) →
      (({} : Ledger α).run before).intake.Open t.channel →
      g.delivered t.channel = g.accepted ∧ g.intake.waiting = [] ∧
        ∀ n, n ≠ t.channel → g.delivered n = [] := by
  intro g
  obtain ⟨done, hg⟩ := settled_run settled_empty steps
  refine ⟨⟨done, hg.accepted, hg.delivered, hg.lost⟩, fun hrun => ?_,
    fun before s _ _ => ?_, fun before s later hsteps hs => ?_,
    fun before t later hsteps hbefore hlater ho => ?_⟩
  · apply hg.empty
    intro hnone
    unfold Intake.isRunning at hrun
    rw [hnone] at hrun
    cases hrun
  · rw [run_append]
    exact lost_step _ s
  · have hterm : ((({} : Ledger α).run before).step s).Over := by
      rcases hs with rfl | rfl <;> exact ⟨rfl, rfl⟩
    have haccepted : ((({} : Ledger α).run before).step s).accepted =
        (({} : Ledger α).run before).accepted := by
      rcases hs with rfl | rfl <;> rfl
    obtain ⟨hend, hsame⟩ := hterm.run later
    have hrun : g = ((({} : Ledger α).run before).step s).run later := by
      change ({} : Ledger α).run steps = _
      rw [hsteps, run_append]
      rfl
    rw [hrun]
    refine ⟨?_, hsame.trans haccepted, hend.post_refused⟩
    unfold Intake.isRunning
    rw [hend.target]
    rfl
  · have hidle : (({} : Ledger α).run before).Idle :=
      Idle.run ⟨rfl, rfl, fun _ => rfl⟩ hbefore
    have hserved := (hidle.start ho).run hlater
    have hrun : g = ((({} : Ledger α).run before).start t).run later := by
      change ({} : Ledger α).run steps = _
      rw [hsteps, run_append]
      rfl
    rw [hrun]
    exact ⟨hserved.all, hserved.waiting, hserved.only⟩

/-- Termination between the posts and the start, and a start whose receiver goes
after one piece of work. -/
theorem accepted_work_delivered_or_lost :
    let steps : List (Intake.Step Nat) := [.connect, .post 1, .post 2, .terminate, .post 3,
      .start ⟨0, 1⟩, .receive 0, .post 4]
    let g := ({} : Ledger Nat).run steps
    let cut := ({} : Ledger Nat).run [.connect, .post 1, .post 2, .post 3, .startCut ⟨0, 1⟩ 1,
      .post 4]
    (g.accepted = [1, 2] ∧ g.delivered 0 = g.accepted ∧ g.intake.isRunning = false) ∧
      cut.accepted = [1, 2, 3] ∧ cut.delivered 0 = [1] ∧ cut.lost = [2, 3] ∧
      ∃ done, cut.accepted = done.map Prod.fst ++ cut.intake.waiting ∧
        (∀ n, cut.delivered n = met done (.queue n)) ∧ cut.lost = met done .lost := by
  intro steps g cut
  obtain ⟨-, -, -, hterm, hserved⟩ := accepted_work_delivered_once steps
  have hdelivered := hserved [.connect, .post 1, .post 2, .terminate, .post 3] ⟨0, 1⟩
    [.receive 0, .post 4] rfl (by simp [Intake.Step.isStart]) (by simp [Intake.Step.isStart])
    ⟨{}, rfl, rfl⟩
  have hended := hterm [.connect, .post 1, .post 2] .terminate
    [.post 3, .start ⟨0, 1⟩, .receive 0, .post 4] rfl (.inl rfl)
  obtain ⟨hdone, -⟩ := accepted_work_delivered_once
    ([.connect, .post 1, .post 2, .post 3, .startCut ⟨0, 1⟩ 1, .post 4] : List (Intake.Step Nat))
  exact ⟨⟨by decide, hdelivered.1, hended.1⟩, by decide, by decide, by decide, hdone⟩

end Ledger
end HttpExchange
