/-
# Errands run in the order of their acceptance

Running errands is receiving from a channel and handing work in again, so the
ledger of an intake on which errands run is one that the general account covers.
What runs off a channel is what was put into its queue, in order, and the queue is
empty in the end. Whether the intake takes work does not change meanwhile: either
all that errands hand in is accepted, or all of it is refused and noted.

A channel is run once, in the order of number, so what later channels hand to an
earlier one stays there. Nothing does if the installed dispatcher has the last
channel, as it has when each dispatcher gets a channel of its own.

Key definitions: `Intake.accepts`, `Errand.notes`, `Errand.turns`, `Errand.Runs`.
Key theorems: `Errand.handIn_spec`, `Errand.runChannel_spec`, `Errand.runAll_in_order`.
-/
import HttpExchange.Errand
import HttpExchange.Proofs.Delivery

namespace HttpExchange

namespace Intake

variable {α : Type} {i j : Intake α} {n : Nat}

/-- The intake takes what it is handed. -/
def accepts (i : Intake α) : Bool :=
  !i.terminated && i.target.all fun t => i.channels[t.channel]?.any Channel.isOpen

theorem accepts_iff :
    i.accepts = true ↔ i.terminated = false ∧ ∀ t, i.target = some t → i.Open t.channel := by
  unfold accepts Open
  cases i.target <;> simp [Option.any_eq_true]

/-- It does so until it is terminated, or a receiver goes. -/
theorem accepts_congr (ht : j.terminated = i.terminated) (hi : j.target = i.target)
    (ho : ∀ k, j.Open k ↔ i.Open k) : j.accepts = i.accepts := by
  rw [Bool.eq_iff_iff, accepts_iff, accepts_iff, ht, hi]
  simp only [ho]

theorem post_of_accepts (h : i.accepts = true) (a : α) : (i.post a).2 = .ok () := by
  obtain ⟨hterm, ho⟩ := accepts_iff.mp h
  unfold post
  rw [hterm]
  cases ht : i.target with
  | none => rfl
  | some t =>
    obtain ⟨j, hs, -⟩ := send_of_open (ho t ht) a
    simp [hs]

theorem post_of_not_accepts (h : i.accepts = false) (a : α) :
    i.post a = (i, .error .terminated) := by
  unfold post
  cases hterm : i.terminated with
  | true => rfl
  | false =>
    cases ht : i.target with
    | none => simp [accepts, hterm, ht] at h
    | some t =>
      have ho : ¬ i.Open t.channel := by
        intro ho
        rw [accepts_iff.mpr ⟨hterm, fun u hu => Option.some.inj (ht.symm.trans hu) ▸ ho⟩] at h
        cases h
      simp [send_of_not_open ho]

theorem open_next? {a : α} (h : i.next? n = some (a, j)) (k : Nat) : j.Open k ↔ i.Open k := by
  obtain ⟨c, rest, hc, -, rfl⟩ := of_next? h
  have hlt : n < i.channels.length := (List.getElem?_eq_some_iff.mp hc).1
  unfold Open
  by_cases hk : k = n
  · subst hk
    simp [hc, List.getElem?_set_self hlt]
  · simp [List.getElem?_set_ne (Ne.symm hk)]

end Intake

namespace Errand

open Ledger (Settled met settled_run run_append)

variable {f g h : Ledger Errand} {es : List Errand} {n : Nat}

/-- The tag of an errand that an errand hands in. -/
def ofTag (t : Int) : Errand := { tag := t }

/-- What an errand notes, depending on whether the intake takes work. -/
def notes (takes : Bool) (e : Errand) : List Note :=
  .ran e.tag :: if takes then [] else e.followers.map fun t => .refused t .terminated

/-- The errands that are accepted from it. -/
def handed (takes : Bool) (e : Errand) : List Errand :=
  if takes then e.followers.map ofTag else []

/-! ### Handing in -/

/-- Nothing but handing in and receiving happens between `g` and `h`: who gets the
work, and whether it is taken, stays. -/
structure Reaches (g h : Ledger Errand) : Prop where
  steps : ∃ steps, h = g.run steps
  accepts : h.intake.accepts = g.intake.accepts
  target : h.intake.target = g.intake.target

theorem Reaches.refl (g : Ledger Errand) : Reaches g g := ⟨⟨[], rfl⟩, rfl, rfl⟩

theorem Reaches.trans (hfg : Reaches f g) (hgh : Reaches g h) : Reaches f h where
  steps := by
    obtain ⟨xs, rfl⟩ := hfg.steps
    obtain ⟨ys, rfl⟩ := hgh.steps
    exact ⟨xs ++ ys, (run_append _ _ _).symm⟩
  accepts := hgh.accepts.trans hfg.accepts
  target := hgh.target.trans hfg.target

/-- Errands are accepted one after the other, and put behind the queue of the
installed dispatcher. -/
structure Gains (g h : Ledger Errand) (es : List Errand) : Prop extends Reaches g h where
  left : h.left = g.left
  accepted : h.accepted = g.accepted ++ es
  pending : ∀ k, h.intake.pending k = g.intake.pending k ++
    if g.intake.target.map Target.channel = some k then es else []

theorem Gains.nothing (g : Ledger Errand) : Gains g g [] where
  toReaches := .refl g
  left := rfl
  accepted := (List.append_nil _).symm
  pending k := by simp

theorem Gains.trans {es' : List Errand} (hfg : Gains f g es) (hgh : Gains g h es') :
    Gains f h (es ++ es') where
  toReaches := hfg.toReaches.trans hgh.toReaches
  left := hgh.left.trans hfg.left
  accepted := by rw [hgh.accepted, hfg.accepted, List.append_assoc]
  pending k := by
    rw [hgh.pending, hfg.pending, hfg.target, List.append_assoc]
    split <;> rfl

theorem gains_post (ha : g.intake.accepts = true) (e : Errand) :
    Gains g (g.post e) [e] ∧ g.intake.post e = ((g.post e).intake, .ok ()) := by
  have hstatus := Intake.post_of_accepts ha e
  have hspec := g.intake.post_spec e
  have hpost : g.post e = { g with
      intake := (g.intake.post e).1
      accepted := g.accepted ++ [e] } := by
    unfold Ledger.post
    split <;> rename_i h <;> simp [h] at hstatus ⊢
  refine ⟨?_, by rw [hpost]; exact Prod.ext rfl hstatus⟩
  have hsteps : ∃ steps, g.post e = g.run steps := ⟨[.post e], rfl⟩
  rw [hpost] at hsteps ⊢
  rw [hstatus] at hspec
  generalize (g.intake.post e).1 = i at hspec hsteps ⊢
  cases hspec with
  | @passed _ t _ ht hi =>
    refine ⟨⟨hsteps, Intake.accepts_congr hi.terminated hi.target hi.opens, hi.target⟩, rfl, rfl,
      fun k => ?_⟩
    rw [hi.pending]
    simp [ht, eq_comm]
  | kept _ ht =>
    refine ⟨⟨hsteps, rfl, rfl⟩, rfl, rfl, fun k => ?_⟩
    simp [ht, Intake.pending]

theorem handIn_of_not_accepts {i : Intake Errand} (ha : i.accepts = false) (ts : List Int) :
    handIn i ts = (i, ts.map fun t => .refused t .terminated) := by
  induction ts with
  | nil => rfl
  | cons t ts ih => simp [handIn, Intake.post_of_not_accepts ha, ih]

theorem handIn_of_accepts (ha : g.intake.accepts = true) (ts : List Int) :
    ∃ h, Gains g h (ts.map ofTag) ∧ handIn g.intake ts = (h.intake, []) := by
  induction ts generalizing g with
  | nil => exact ⟨g, .nothing g, rfl⟩
  | cons t ts ih =>
    obtain ⟨hgains, hpost⟩ := gains_post ha (ofTag t)
    obtain ⟨h, hrest, heq⟩ := ih (hgains.accepts.trans ha)
    refine ⟨h, hgains.trans hrest, ?_⟩
    unfold handIn
    rw [show g.intake.post { tag := t } = _ from hpost]
    exact heq

/-- All that an errand hands in is accepted, or all of it is refused and noted. -/
theorem handIn_spec (g : Ledger Errand) (e : Errand) :
    ∃ h, Gains g h (e.handed g.intake.accepts) ∧
      (h.intake, e.notes g.intake.accepts) =
        ((handIn g.intake e.followers).1, .ran e.tag :: (handIn g.intake e.followers).2) := by
  cases ha : g.intake.accepts with
  | true =>
    obtain ⟨h, hgains, heq⟩ := handIn_of_accepts ha e.followers
    exact ⟨h, hgains, by rw [heq]; rfl⟩
  | false =>
    exact ⟨g, .nothing g, by rw [handIn_of_not_accepts ha]; rfl⟩

/-! ### One channel -/

/-- How many turns a queue can take, with what the errands in it hand in. -/
def load : List Errand → Nat
  | [] => 0
  | e :: es => e.followers.length + 1 + load es

theorem load_append (es es' : List Errand) : load (es ++ es') = load es + load es' := by
  induction es with
  | nil => exact (Nat.zero_add _).symm
  | cons e es ih =>
    simp only [List.cons_append, load, ih]
    omega

theorem load_ofTag (ts : List Int) : load (ts.map ofTag) = ts.length := by
  induction ts with
  | nil => rfl
  | cons t ts ih =>
    simp only [List.map_cons, load, ofTag, List.length_nil, List.length_cons, ih]
    omega

theorem load_handed (takes : Bool) (e : Errand) : load (e.handed takes) ≤ e.followers.length := by
  unfold handed
  split
  · exact Nat.le_of_eq (load_ofTag _)
  · exact Nat.zero_le _

/-- What was run off channel `k`, of errands with their channels. -/
def offChannel (rs : List (Nat × Errand)) (k : Nat) : List Errand :=
  (rs.filter fun r => r.1 = k).map Prod.snd

theorem offChannel_append (rs rs' : List (Nat × Errand)) (k : Nat) :
    offChannel (rs ++ rs') k = offChannel rs k ++ offChannel rs' k := by
  unfold offChannel
  rw [List.filter_append, List.map_append]

/-- `h` comes from `g` by running errands, each off its channel. Only these channels and
that of the installed dispatcher are touched. -/
structure Runs (g h : Ledger Errand) (rs : List (Nat × Errand)) : Prop extends Reaches g h where
  left : ∀ k, h.left k = g.left k ++ offChannel rs k
  accepted : h.accepted = g.accepted ++ rs.flatMap fun r => r.2.handed g.intake.accepts
  aside : ∀ k, k ∉ rs.map Prod.fst → g.intake.target.map Target.channel ≠ some k →
    h.intake.pending k = g.intake.pending k

theorem Runs.nothing (g : Ledger Errand) : Runs g g [] where
  toReaches := .refl g
  left _ := (List.append_nil _).symm
  accepted := (List.append_nil _).symm
  aside _ _ _ := rfl

theorem Runs.trans {rs rs' : List (Nat × Errand)} (hfg : Runs f g rs) (hgh : Runs g h rs') :
    Runs f h (rs ++ rs') where
  toReaches := hfg.toReaches.trans hgh.toReaches
  left k := by rw [hgh.left, hfg.left, offChannel_append, List.append_assoc]
  accepted := by
    rw [hgh.accepted, hfg.accepted, hfg.accepts, List.append_assoc, List.flatMap_append]
  aside k hk ht := by
    rw [List.map_append, List.mem_append, not_or] at hk
    rw [hgh.aside k hk.2 (hfg.target ▸ ht), hfg.aside k hk.1 ht]

/-- One turn: an errand leaves the queue and hands in what it has. -/
theorem runs_turn {e : Errand} {i : Intake Errand} (hn : g.intake.next? n = some (e, i)) :
    ∃ h, Runs g h [(n, e)] ∧
      (h.intake, e.notes g.intake.accepts) =
        ((handIn i e.followers).1, .ran e.tag :: (handIn i e.followers).2) ∧
      load (h.intake.pending n) < load (g.intake.pending n) := by
  obtain ⟨hpending, hrest⟩ := Intake.pending_next? hn
  have htarget : i.target = g.intake.target := by rw [← hrest]
  have haccepts : i.accepts = g.intake.accepts :=
    Intake.accepts_congr (by rw [← hrest]) htarget (Intake.open_next? hn)
  have hreceive : g.receive n =
      { g with intake := i, left := fun k => g.left k ++ if k = n then [e] else [] } := by
    unfold Ledger.receive
    rw [hn]
  have hreaches : Reaches g (g.receive n) :=
    ⟨⟨[.receive n], rfl⟩, by rw [hreceive, haccepts], by rw [hreceive, htarget]⟩
  obtain ⟨h, hgains, heq⟩ := handIn_spec (g.receive n) e
  have hall := hreaches.trans hgains.toReaches
  rw [hreceive] at hgains heq
  dsimp only at heq
  rw [haccepts] at heq
  refine ⟨h, { toReaches := hall, left := ?left, accepted := ?accepted, aside := ?aside }, heq, ?_⟩
  case left =>
    intro k
    rw [hgains.left]
    by_cases hk : k = n
    · simp [offChannel, hk]
    · simp [offChannel, hk, Ne.symm hk]
  case accepted =>
    rw [hgains.accepted, haccepts]
    simp
  case aside =>
    intro k hk ht
    have hk : k ≠ n := by simpa using hk
    rw [hgains.pending, htarget, if_neg ht, hpending k, if_neg hk]
    simp
  have hgained : load (h.intake.pending n) ≤ load (i.pending n) + e.followers.length := by
    rw [hgains.pending, load_append]
    refine Nat.add_le_add_left ?_ _
    split
    · exact load_handed _ _
    · exact Nat.zero_le _
  rw [hpending n, if_pos rfl, load_append]
  simp only [load]
  omega

/-- With turns enough, the queue is empty in the end. -/
theorem runChannel_spec (n turns : Nat) (g : Ledger Errand) :
    ∃ (h : Ledger Errand) (es : List Errand), Runs g h (es.map fun e => (n, e)) ∧
      runChannel n turns g.intake = (h.intake, es.flatMap (notes g.intake.accepts)) ∧
      (load (g.intake.pending n) ≤ turns → h.intake.pending n = []) := by
  induction turns generalizing g with
  | zero =>
    refine ⟨g, [], .nothing g, rfl, fun hload => ?_⟩
    cases hp : g.intake.pending n with
    | nil => rfl
    | cons e es => simp [hp, load] at hload
  | succ turns ih =>
    unfold runChannel
    cases hn : g.intake.next? n with
    | none => exact ⟨g, [], .nothing g, rfl, fun _ => Intake.next?_eq_none.mp hn⟩
    | some r =>
      obtain ⟨e, i⟩ := r
      obtain ⟨h, hturn, heq, hless⟩ := runs_turn hn
      obtain ⟨h', es, hruns, hrest, hempty⟩ := ih h
      obtain ⟨hi, hnotes⟩ := Prod.mk.inj heq
      refine ⟨h', e :: es, hturn.trans hruns, ?_, fun hload => hempty (by omega)⟩
      dsimp only
      rw [← hi, hrest, List.flatMap_cons, hnotes, hturn.accepts]

/-! ### All channels -/

/-- The turns reckoned with are enough for each channel. -/
theorem load_le_work (i : Intake Errand) (n : Nat) : load (i.pending n) ≤ work i := by
  have hturns (es : List Errand) (m : Nat) :
      es.foldl (fun turns e => turns + 1 + e.followers.length) m = m + load es := by
    induction es generalizing m with
    | nil => rfl
    | cons e es ih =>
      rw [List.foldl_cons, ih, load]
      omega
  have hgrows (cs : List (Channel Errand)) (m : Nat) :
      m ≤ cs.foldl (fun turns c => c.pending.foldl
        (fun turns e => turns + 1 + e.followers.length) turns) m := by
    induction cs generalizing m with
    | nil => exact Nat.le_refl m
    | cons c cs ih =>
      rw [List.foldl_cons, hturns]
      exact Nat.le_trans (Nat.le_add_right m _) (ih _)
  unfold work Intake.pending
  cases hc : i.channels[n]? with
  | none => exact Nat.zero_le _
  | some c =>
    obtain ⟨cs, cs', hcs⟩ := List.append_of_mem (List.mem_of_getElem? hc)
    rw [hcs, List.foldl_append, List.foldl_cons, hturns]
    exact Nat.le_trans (Nat.le_add_left _ _) (hgrows cs' _)

/-- Each channel below `m` is run in its turn. Later turns leave its queue empty unless
they hand work to it. -/
theorem runBelow_spec (m : Nat) (g : Ledger Errand) :
    ∃ (h : Ledger Errand) (rs : List (Nat × Errand)), Runs g h rs ∧
      runBelow g.intake m = (h.intake, rs.flatMap fun r => r.2.notes g.intake.accepts) ∧
      (∀ r ∈ rs, r.1 < m) ∧ rs.Pairwise (fun r r' => r.1 ≤ r'.1) ∧
      ∀ k < m, k + 1 = m ∨ g.intake.target.map Target.channel ≠ some k →
        h.intake.pending k = [] := by
  induction m with
  | zero => exact ⟨g, [], .nothing g, rfl, nofun, .nil, nofun⟩
  | succ m ih =>
    obtain ⟨h, rs, hruns, heq, hbelow, hsorted, hempty⟩ := ih
    obtain ⟨h', es, hruns', heq', hempty'⟩ := runChannel_spec m (work h.intake) h
    have hdone := hempty' (load_le_work _ _)
    refine ⟨h', rs ++ es.map fun e => (m, e), hruns.trans hruns', ?_, ?_, ?_, fun k hk ht => ?_⟩
    · unfold runBelow
      rw [heq]
      dsimp only
      rw [heq', hruns.accepts, List.flatMap_append, List.flatMap_map]
    · intro r hr
      rcases List.mem_append.mp hr with hr | hr
      · exact Nat.lt_succ_of_lt (hbelow r hr)
      · obtain ⟨e, -, rfl⟩ := List.mem_map.mp hr
        exact Nat.lt_succ_self m
    · refine List.pairwise_append.mpr ⟨hsorted, ?_, fun r hr r' hr' => ?_⟩
      · exact List.pairwise_map.mpr (List.pairwise_of_forall fun _ _ => Nat.le_refl m)
      · obtain ⟨e, -, rfl⟩ := List.mem_map.mp hr'
        exact Nat.le_of_lt (hbelow r hr)
    · by_cases hkm : k = m
      · rw [hkm, hdone]
      · have haside : g.intake.target.map Target.channel ≠ some k :=
          ht.resolve_left fun h => hkm (Nat.succ.inj h)
        rw [hruns'.aside k (fun hmem => ?_) (hruns.target ▸ haside)]
        · exact hempty k (by omega) (.inr haside)
        · obtain ⟨r, hr, rfl⟩ := List.mem_map.mp hmem
          obtain ⟨e, -, rfl⟩ := List.mem_map.mp hr
          exact hkm rfl

/-- Running all channels when the installed dispatcher has the last one: every queue is
empty, and each has run just what was ever put into it, in the order of acceptance.
The notes say what ran, channel by channel, and what was refused on the way. -/
theorem runAll_in_order {done : List (Errand × Ledger.Fate)} (hg : g.Settled done)
    (hlast : ∀ t, g.intake.target = some t → t.channel + 1 = g.intake.channels.length) :
    ∃ (h : Ledger Errand) (rs : List (Nat × Errand)) (done' : List (Errand × Ledger.Fate)), Runs g h rs ∧
      runAll g.intake = (h.intake, rs.flatMap fun r => r.2.notes g.intake.accepts) ∧
      rs.Pairwise (fun r r' => r.1 ≤ r'.1) ∧ h.Settled done' ∧
      ∀ k, h.intake.pending k = [] ∧ h.left k = met done' (.queue k) := by
  obtain ⟨h, rs, hruns, heq, hbelow, hsorted, hempty⟩ := runBelow_spec g.intake.channels.length g
  obtain ⟨steps, hsteps⟩ := hruns.steps
  obtain ⟨done', hsettled⟩ := settled_run hg steps
  rw [← hsteps] at hsettled
  have last {k : Nat} (ht : g.intake.target.map Target.channel = some k) :
      k + 1 = g.intake.channels.length := by
    obtain ⟨t, hsome, rfl⟩ := Option.map_eq_some_iff.mp ht
    exact hlast t hsome
  have hnone (k : Nat) : h.intake.pending k = [] := by
    by_cases hk : k < g.intake.channels.length
    · refine hempty k hk ?_
      by_cases ht : g.intake.target.map Target.channel = some k
      · exact .inl (last ht)
      · exact .inr ht
    · rw [hruns.aside k (fun hr => ?_) fun ht => hk (by have := last ht; omega)]
      · unfold Intake.pending
        rw [List.getElem?_eq_none (by omega)]
      · obtain ⟨r, hmem, rfl⟩ := List.mem_map.mp hr
        exact hk (hbelow r hmem)
  refine ⟨h, rs, done', hruns, heq, hsorted, hsettled, fun k => ⟨hnone k, ?_⟩⟩
  rw [← hsettled.delivered]
  unfold Ledger.delivered
  rw [hnone k, List.append_nil]

-- The installed dispatcher has the first of two channels: what the second hands in stays.
example : (runAll ⟨[], some ⟨0, 0⟩, false, [⟨[⟨1, [2]⟩], true⟩, ⟨[⟨3, [4]⟩], true⟩]⟩).2 =
    [.ran 1, .ran 2, .ran 3] := rfl

end Errand
end HttpExchange
