/-
# Dispatchers whose receiver is gone

A dispatcher may be installed on an intake after its receiver has gone. That is
noticed by work that is handed over, and by nothing else. If work was waiting,
the installation fails and the intake has ended for good, as it has if it was
terminated before (`Ledger.over_of_gone`). If none was waiting, the dispatcher is
installed: the intake counts as running and refuses all work (`Ledger.Stranded`),
but it has not ended, and the next dispatcher that is installed can take its
place (`Ledger.Stranded.start`).

Key definitions: `Intake.Gone`, `Ledger.Stranded`.
Key theorems: `Ledger.over_of_gone`, `Ledger.stranded_of_gone`,
`Ledger.Stranded.step`, `Ledger.Stranded.run_refused`,
`Ledger.ends_with_gone_receiver_iff`.
-/
import HttpExchange.Proofs.Delivery

namespace HttpExchange

namespace Intake

variable {α : Type} {i j : Intake α} {n k : Nat}

/-- Channel `n` was made, and its receiver is gone. -/
def Gone (i : Intake α) (n : Nat) : Prop := ∃ c, i.channels[n]? = some c ∧ c.isOpen = false

theorem Gone.not_open (hg : i.Gone n) : ¬ i.Open n := by
  obtain ⟨c, hc, hclosed⟩ := hg
  rintro ⟨d, hd, hopen⟩
  rw [hc, Option.some.injEq] at hd
  rw [hd, hopen] at hclosed
  cases hclosed

/-- Which receivers are gone depends on the channels only. -/
theorem Gone.congr (hg : i.Gone n) (h : j.channels = i.channels) : j.Gone n := by
  unfold Gone
  rw [h]
  exact hg

/-- A channel whose receiver is gone refuses work. -/
theorem Gone.post (hg : i.Gone n) {t : Target} (ht : i.target = some t) (hn : t.channel = n)
    (a : α) : i.post a = (i, .error .terminated) := by
  unfold Intake.post
  split
  · rfl
  · rw [ht]
    dsimp only
    rw [send_of_not_open (hn ▸ hg.not_open)]

/-- A receiver that is gone stays so when work is taken off a channel. -/
theorem Gone.next? {a : α} (hg : i.Gone k) (h : i.next? n = some (a, j)) : j.Gone k := by
  obtain ⟨d, hd, hclosed⟩ := hg
  obtain ⟨c, rest, hc, -, rfl⟩ := of_next? h
  have hlt : n < i.channels.length := (List.getElem?_eq_some_iff.mp hc).1
  by_cases hk : k = n
  · subst hk
    obtain rfl : c = d := Option.some.inj (hc.symm.trans hd)
    exact ⟨_, List.getElem?_set_self hlt, hclosed⟩
  · exact ⟨d, (List.getElem?_set_ne (Ne.symm hk)).trans hd, hclosed⟩

theorem Gone.closeChannel (hg : i.Gone k) (n : Nat) : (i.closeChannel n).Gone k := by
  obtain ⟨c, hc, hclosed⟩ := hg
  unfold Gone Intake.closeChannel
  by_cases hk : n = k
  · exact ⟨c.close, by simp [hk, hc], rfl⟩
  · exact ⟨c, by simp [hk, hc], hclosed⟩

theorem Gone.addChannel (hg : i.Gone k) : (i.addChannel).Gone k := by
  obtain ⟨c, hc, hclosed⟩ := hg
  have hlt : k < i.channels.length := (List.getElem?_eq_some_iff.mp hc).1
  exact ⟨c, (List.getElem?_append_left hlt).trans hc, hclosed⟩

/-- The step ends the intake. -/
def Step.isEnd : Step α → Bool
  | terminate | abandon => true
  | _ => false

end Intake

namespace Ledger

variable {α : Type} {g : Ledger α}

/-- The installed dispatcher's receiver is gone, and nobody has noticed. -/
structure Stranded (g : Ledger α) : Prop where
  gone : ∃ t, g.intake.target = some t ∧ g.intake.Gone t.channel
  waiting : g.intake.waiting = []
  ongoing : g.intake.terminated = false

/-! ### The installation -/

/-- The installation ends an intake for good if work waits, or if the intake was
terminated. -/
theorem over_of_gone {done : List (α × Fate)} (hg : g.Settled done) {t : Target}
    (hgone : g.intake.Gone t.channel)
    (h : g.intake.waiting ≠ [] ∨ g.intake.terminated = true) : (g.start t).Over := by
  by_cases hterm : g.intake.terminated = true
  · exact Over.start ⟨hterm, hg.shut hterm⟩ t
  · have hwait := h.resolve_right hterm
    have hnone : g.intake.target = none := by
      cases ht : g.intake.target with
      | none => rfl
      | some u => exact absurd (hg.empty (by simp [ht])) hwait
    have hspec := g.intake.start_spec t
    have hintake : (g.start t).intake = g.intake.start t := rfl
    generalize g.intake.start t = i at hspec hintake
    cases hspec with
    | flushed _ ho => exact absurd (ho hwait) hgone.not_open
    | failed _ _ => exact ⟨by rw [hintake], by rw [hintake]; exact hnone⟩

/-- Without work that waits, the dispatcher is installed all the same. -/
theorem start_eq (hwait : g.intake.waiting = []) (hgoing : g.intake.terminated = false)
    (t : Target) : g.start t = { g with intake := { g.intake with target := some t } } := by
  have hall : g.intake.sendAll t.channel g.intake.waiting = (g.intake, true) := by
    rw [hwait]
    rfl
  unfold start Intake.start
  rw [hall]
  dsimp only
  rw [if_neg (by simp [hgoing]), if_pos rfl, ← hwait]

theorem stranded_of_gone {t : Target} (hgone : g.intake.Gone t.channel)
    (hwait : g.intake.waiting = []) (hgoing : g.intake.terminated = false) :
    (g.start t).Stranded := by
  rw [start_eq hwait hgoing]
  exact ⟨⟨t, rfl, hgone.congr rfl⟩, hwait, hgoing⟩

/-! ### What follows it -/

section Stranded

theorem Over.isRunning (hg : g.Over) : g.intake.isRunning = false := by
  unfold Intake.isRunning
  rw [hg.target]
  rfl

theorem Stranded.isRunning (hg : g.Stranded) : g.intake.isRunning = true := by
  obtain ⟨t, ht, -⟩ := hg.gone
  unfold Intake.isRunning
  rw [ht]
  rfl

theorem Stranded.post_refused (hg : g.Stranded) (a : α) :
    g.intake.post a = (g.intake, .error .terminated) := by
  obtain ⟨t, ht, hgone⟩ := hg.gone
  exact hgone.post ht rfl a

/-- Nothing but an installation or the end of the intake changes that. -/
theorem Stranded.step (hg : g.Stranded) {s : Intake.Step α} (hs : s.isStart = false)
    (he : s.isEnd = false) : (g.step s).Stranded := by
  obtain ⟨t, ht, hgone⟩ := hg.gone
  cases s with
  | start _ | startCut _ _ => cases hs
  | terminate | abandon => cases he
  | post a =>
    change (g.post a).Stranded
    unfold Ledger.post
    rw [hg.post_refused a]
    exact hg
  | connect => exact ⟨⟨t, ht, hgone.addChannel⟩, hg.waiting, hg.ongoing⟩
  | close n => exact ⟨⟨t, ht, hgone.closeChannel n⟩, hg.waiting, hg.ongoing⟩
  | receive n =>
    change (g.receive n).Stranded
    unfold Ledger.receive
    cases hn : g.intake.next? n with
    | none => exact hg
    | some r =>
      obtain ⟨a, i⟩ := r
      obtain ⟨-, hrest⟩ := Intake.pending_next? hn
      refine ⟨⟨t, ?_, hgone.next? hn⟩, ?_, ?_⟩
      · rw [← ht, ← hrest]
      · rw [← hg.waiting, ← hrest]
      · rw [← hg.ongoing, ← hrest]

/-- The intake has ended, whatever state it was in. -/
theorem over_of_isEnd (g : Ledger α) {s : Intake.Step α} (he : s.isEnd = true) : (g.step s).Over := by
  cases s with
  | terminate | abandon => exact ⟨rfl, rfl⟩
  | post _ | start _ | startCut _ _ | connect | receive _ | close _ => cases he

theorem Stranded.run (hg : g.Stranded) {steps : List (Intake.Step α)}
    (hs : ∀ s ∈ steps, s.isStart = false ∧ s.isEnd = false) : (g.run steps).Stranded := by
  induction steps generalizing g with
  | nil => exact hg
  | cons s steps ih =>
    obtain ⟨hstart, hend⟩ := hs s (by simp)
    exact ih (hg.step hstart hend) fun u hu => hs u (by simp [hu])

/-- All work is refused until the next installation. -/
theorem Stranded.run_refused (hg : g.Stranded) {steps : List (Intake.Step α)}
    (hs : ∀ s ∈ steps, s.isStart = false) (a : α) :
    (g.run steps).intake.post a = ((g.run steps).intake, .error .terminated) := by
  induction steps generalizing g with
  | nil => exact hg.post_refused a
  | cons s steps ih =>
    cases he : s.isEnd with
    | true => exact ((over_of_isEnd g he).run steps).1.post_refused a
    | false => exact ih (hg.step (hs s (by simp)) he) fun u hu => hs u (by simp [hu])

/-- A dispatcher whose receiver is there takes the place of the other one. -/
theorem Stranded.start (hg : g.Stranded) {u : Target} (ho : g.intake.Open u.channel) :
    (g.start u).intake.isRunning = true ∧ ∀ a, ((g.start u).intake.post a).2 = .ok () := by
  rw [start_eq hg.waiting hg.ongoing]
  refine ⟨rfl, fun a => ?_⟩
  obtain ⟨j, hs, -⟩ := Intake.send_of_open (i := { g.intake with target := some u }) ho a
  unfold Intake.post
  rw [if_neg (by simp [hg.ongoing])]
  dsimp only
  rw [hs]

end Stranded

/-- Whatever was done with an intake before, install a dispatcher on it whose
receiver is gone. The intake has ended for good, so that it neither runs nor takes
work whatever is installed later, if and only if work was waiting or the intake
was terminated. If not, it counts as running. It takes no work until a dispatcher
is installed again, and then, unless it was ended meanwhile, it runs and takes
work if that dispatcher's receiver is there. -/
theorem ends_with_gone_receiver_iff (before : List (Intake.Step α)) (t : Target)
    (hgone : (({} : Ledger α).run before).intake.Gone t.channel) :
    let g := ({} : Ledger α).run before
    let d := g.start t
    ((∀ later, (d.run later).intake.isRunning = false ∧
        ∀ a, (d.run later).intake.post a = ((d.run later).intake, .error .terminated)) ↔
      g.intake.waiting ≠ [] ∨ g.intake.terminated = true) ∧
    (g.intake.waiting = [] → g.intake.terminated = false → d.intake.isRunning = true ∧
      (∀ later, (∀ s ∈ later, s.isStart = false) → ∀ a,
        (d.run later).intake.post a = ((d.run later).intake, .error .terminated)) ∧
      ∀ later u, (∀ s ∈ later, s.isStart = false ∧ s.isEnd = false) →
        (d.run later).intake.Open u.channel →
        ((d.run later).start u).intake.isRunning = true ∧
          ∀ a, (((d.run later).start u).intake.post a).2 = .ok ()) := by
  intro g d
  obtain ⟨done, hg⟩ := settled_run settled_empty before
  refine ⟨⟨fun hends => ?_, fun h later => ?_⟩, fun hwait hgoing => ?_⟩
  · -- an intake that nothing waits in and that was not terminated is running
    cases hterm : g.intake.terminated with
    | true => exact .inr rfl
    | false =>
      refine .inl fun hwait => ?_
      have hruns : d.intake.isRunning = true := (stranded_of_gone hgone hwait hterm).isRunning
      rw [show d.intake.isRunning = false from (hends []).1] at hruns
      cases hruns
  · have hover := ((over_of_gone hg hgone h).run later).1
    exact ⟨hover.isRunning, hover.post_refused⟩
  · have hd : d.Stranded := stranded_of_gone hgone hwait hgoing
    exact ⟨hd.isRunning, fun later hlater => hd.run_refused hlater,
      fun later u hlater ho => (hd.run hlater).start ho⟩

/-- A receiver that is gone, with a piece of work waiting and with none; then a
dispatcher that could serve. -/
theorem ends_with_gone_receiver_if_work_waits :
    let waits : List (Intake.Step Nat) := [.connect, .close 0, .post 1]
    let idle : List (Intake.Step Nat) := [.connect, .close 0]
    let later : List (Intake.Step Nat) := [.connect, .start ⟨1, 1⟩]
    let ended := (({} : Ledger Nat).run waits).start ⟨0, 1⟩
    let stranded := (({} : Ledger Nat).run idle).start ⟨0, 1⟩
    (ended.intake.isRunning = false ∧ (ended.run later).intake.isRunning = false ∧
      (ended.run later).intake.post 2 = ((ended.run later).intake, .error .terminated)) ∧
    stranded.intake.isRunning = true ∧
    stranded.intake.post 2 = (stranded.intake, .error .terminated) ∧
    (stranded.run later).intake.isRunning = true ∧
    ((stranded.run later).intake.post 2).2 = .ok () := by
  intro waits idle later ended stranded
  obtain ⟨hends, -⟩ := ends_with_gone_receiver_iff waits ⟨0, 1⟩ ⟨_, rfl, rfl⟩
  obtain ⟨-, hstranded⟩ := ends_with_gone_receiver_iff idle ⟨0, 1⟩ ⟨_, rfl, rfl⟩
  have hover := hends.mpr (.inl (by decide))
  obtain ⟨hruns, hrefused, hserves⟩ := hstranded rfl rfl
  obtain ⟨hrunning, haccepted⟩ := hserves [.connect] ⟨1, 1⟩
    (by simp [Intake.Step.isStart, Intake.Step.isEnd]) ⟨{}, rfl, rfl⟩
  exact ⟨⟨(hover []).1, (hover later).1, (hover later).2 2⟩, hruns,
    hrefused [] (by simp) 2, hrunning, haccepted 2⟩

end Ledger
end HttpExchange
