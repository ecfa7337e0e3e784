/-
# Runs, seen from one stream

A run is a list of moves. What it does to one stream is followed through two
views: the stream of that identity in the registry (`Client.find`), and what is
told of it (`told`). `Client.Sees` lists what one operation can do to the two,
and `Client.Serves` what it can do to a stream that is registered.

A handle can be started again, so a stream is told from the others under its
handle by its identity, which no later start gives out (`Client.gone_after`).

Key definitions: `Client.after`, `Client.outputs`, `Client.log`, `Client.find`,
`Client.Live`, `Client.Sees`, `Client.Serves`.
Key theorems: `Client.sees_advance`, `Client.serves_advance`, `Client.gone_after`,
`Client.exists_birth`.
-/
import HttpExchange.Proofs.Sound

namespace HttpExchange

/-- What is told of a stream. -/
def told (id : StreamId) (outs : List Output) : List Event :=
  outs.filterMap fun o =>
    match o with
    | .told i e => if i = id then some e else none
    | _ => none

theorem told_append (id : StreamId) (xs ys : List Output) :
    told id (xs ++ ys) = told id xs ++ told id ys := List.filterMap_append ..

theorem told_map_called (id i : StreamId) (calls : List RequestCall) :
    told id (calls.map (.called i)) = [] := by
  induction calls with
  | nil => rfl
  | cons _ _ ih => exact ih

theorem told_map_told (id : StreamId) (es : List Event) : told id (es.map (.told id)) = es := by
  induction es with
  | nil => rfl
  | cons e es ih =>
    rw [List.map_cons]
    unfold told at ih ⊢
    rw [List.filterMap_cons, ih]
    simp

theorem told_map_told_ne {id i : StreamId} (hi : i ≠ id) (es : List Event) :
    told id (es.map (.told i)) = [] := by
  induction es with
  | nil => rfl
  | cons e es ih =>
    rw [List.map_cons]
    unfold told at ih ⊢
    rw [List.filterMap_cons, ih]
    simp [hi]

namespace Client

open Registry (Bucket)

/-! ### Runs -/

/-- The client after a run. -/
def after (c : Client) : List Move → Client
  | [] => c
  | m :: ms => (c.advance m).1.after ms

/-- What each move of a run puts out. -/
def outputs (c : Client) : List Move → List (List Output)
  | [] => []
  | m :: ms => (c.advance m).2 :: (c.advance m).1.outputs ms

/-- What each move of a run tells of a stream. -/
def log (c : Client) (id : StreamId) (ms : List Move) : List (List Event) :=
  (c.outputs ms).map (told id)

theorem after_append (c : Client) (xs ys : List Move) :
    c.after (xs ++ ys) = (c.after xs).after ys := by
  induction xs generalizing c with
  | nil => rfl
  | cons x xs ih => exact ih _

theorem outputs_append (c : Client) (xs ys : List Move) :
    c.outputs (xs ++ ys) = c.outputs xs ++ (c.after xs).outputs ys := by
  induction xs generalizing c with
  | nil => rfl
  | cons x xs ih => exact congrArg _ (ih _)

theorem log_append (c : Client) (id : StreamId) (xs ys : List Move) :
    c.log id (xs ++ ys) = c.log id xs ++ (c.after xs).log id ys := by
  unfold log
  rw [outputs_append, List.map_append]

theorem log_cons (c : Client) (id : StreamId) (m : Move) (ms : List Move) :
    c.log id (m :: ms) = told id (c.advance m).2 :: (c.advance m).1.log id ms := rfl

/-- What one more move adds to what was told. -/
theorem flatten_log_concat (c : Client) (id : StreamId) (ms : List Move) (m : Move) :
    (c.log id (ms ++ [m])).flatten = (c.log id ms).flatten ++ told id ((c.after ms).advance m).2 := by
  rw [log_append, List.flatten_append, log_cons, List.flatten_cons]
  exact congrArg _ (List.append_nil _)

theorem sound_after {c : Client} (hc : c.Sound) (ms : List Move) : (c.after ms).Sound := by
  induction ms generalizing c with
  | nil => exact hc
  | cons m ms ih => exact ih (sound_advance hc m)

/-- Serials are given out once in a run. -/
theorem nextSerial_after {c : Client} (hc : c.Sound) (ms : List Move) :
    c.nextSerial ≤ (c.after ms).nextSerial := by
  induction ms generalizing c with
  | nil => exact Nat.le_refl _
  | cons m ms ih =>
    have hm := (does_advance hc.disjoint m).nextSerial
    exact Nat.le_trans hm (ih (sound_advance hc m))

/-- No run changes the mode. -/
theorem explicit_after {c : Client} (hc : c.Sound) (ms : List Move) :
    (c.after ms).explicit = c.explicit := by
  induction ms generalizing c with
  | nil => rfl
  | cons m ms ih =>
    have hm := (does_advance hc.disjoint m).explicit
    exact (ih (sound_advance hc m)).trans hm

/-- No run changes the high mark of the buffers. -/
theorem highWatermark_after {c : Client} (hc : c.Sound) (ms : List Move) :
    (c.after ms).highWatermark = c.highWatermark := by
  induction ms generalizing c with
  | nil => rfl
  | cons m ms ih =>
    have hm := (does_advance hc.disjoint m).highWatermark
    exact (ih (sound_advance hc m)).trans hm

/-- A client that a run can lead to. -/
def Reachable (c : Client) : Prop :=
  ∃ config draws ms, c = (ofConfig config draws).after ms

theorem Reachable.sound {c : Client} (hc : c.Reachable) : c.Sound := by
  obtain ⟨config, draws, ms, rfl⟩ := hc
  exact sound_after (sound_ofConfig config draws) ms

/-! ### One stream -/

/-- The stream of an identity, while it is registered. -/
def find (c : Client) (id : StreamId) : Option Stream :=
  ((c.entry id.handle).map (·.2)).filter fun s => s.id = id

/-- A stream of that identity is in the registry. -/
def Live (c : Client) (id : StreamId) : Prop :=
  ∃ h b s, c.entry h = some (b, s) ∧ s.id = id

theorem find_eq_some {c : Client} {id : StreamId} {s : Stream} :
    c.find id = some s ↔ s.id = id ∧ ∃ b, c.entry id.handle = some (b, s) := by
  unfold find
  cases c.entry id.handle with
  | none => simp
  | some e =>
    obtain ⟨b, t⟩ := e
    simp only [Option.map_some, Option.filter, decide_eq_true_eq]
    by_cases ht : t.id = id
    · rw [if_pos ht]
      simp only [Option.some.injEq, Prod.mk.injEq, exists_eq_left']
      exact ⟨fun h => ⟨h ▸ ht, h⟩, fun h => h.2⟩
    · rw [if_neg ht]
      simp only [Option.some.injEq, Prod.mk.injEq, exists_eq_left', reduceCtorEq, false_iff]
      rintro ⟨hs, rfl⟩
      exact ht hs

theorem live_iff {c : Client} (hc : c.Sound) (id : StreamId) : c.Live id ↔ (c.find id).isSome := by
  rw [Option.isSome_iff_exists]
  constructor
  · rintro ⟨h, b, s, he, rfl⟩
    exact ⟨s, find_eq_some.mpr ⟨rfl, b, (hc.fits he).handle ▸ he⟩⟩
  · rintro ⟨s, hs⟩
    obtain ⟨hid, b, he⟩ := find_eq_some.mp hs
    exact ⟨id.handle, b, s, he, hid⟩

/-- A stream is found under its handle only. -/
theorem find_congr {c d : Client} {id : StreamId} (he : d.entry id.handle = c.entry id.handle) :
    d.find id = c.find id := by
  unfold find
  rw [he]

theorem find_of_entry {c : Client} {id : StreamId} {e : Option (Bucket × Stream)}
    (he : c.entry id.handle = e) : c.find id = (e.map (·.2)).filter fun s => s.id = id := by
  rw [← he]
  rfl

theorem fits_of_find {c : Client} (hc : c.Sound) {id : StreamId} {s : Stream}
    (hs : c.find id = some s) : c.Fits id.handle s := by
  obtain ⟨-, b, he⟩ := find_eq_some.mp hs
  exact hc.fits he

theorem serial_lt_of_find {c : Client} (hc : c.Sound) {id : StreamId} {s : Stream}
    (hs : c.find id = some s) : id.serial < c.nextSerial := by
  have hf := fits_of_find hc hs
  have hid := (find_eq_some.mp hs).1
  exact hid ▸ hf.started

/-- The part of the response that a move brings for a stream, if it is registered. -/
def arriving (c : Client) (id : StreamId) (m : Move) : List ResponsePart :=
  if (c.find id).isSome ∧ m.op.handle? = some id.handle then m.op.part?.toList else []

/-- The parts of the response that arrived for a stream in a run. -/
def arrivals (c : Client) (id : StreamId) : List Move → List ResponsePart
  | [] => []
  | m :: ms => c.arriving id m ++ (c.advance m).1.arrivals id ms

theorem arrivals_cons (c : Client) (id : StreamId) (m : Move) (ms : List Move) :
    c.arrivals id (m :: ms) = c.arriving id m ++ (c.advance m).1.arrivals id ms := rfl

theorem arrivals_append (c : Client) (id : StreamId) (xs ys : List Move) :
    c.arrivals id (xs ++ ys) = c.arrivals id xs ++ (c.after xs).arrivals id ys := by
  induction xs generalizing c with
  | nil => rfl
  | cons x xs ih =>
    rw [List.cons_append, arrivals_cons, ih, arrivals_cons, List.append_assoc]
    rfl

theorem arrivals_concat (c : Client) (id : StreamId) (ms : List Move) (m : Move) :
    c.arrivals id (ms ++ [m]) = c.arrivals id ms ++ (c.after ms).arriving id m := by
  rw [arrivals_append, arrivals_cons]
  exact congrArg _ (List.append_nil _)

theorem arriving_absent {c : Client} {id : StreamId} (hf : c.find id = none) (m : Move) :
    c.arriving id m = [] := by
  unfold arriving
  simp [hf]

theorem arriving_of_part {c : Client} {id : StreamId} {m : Move} (hf : (c.find id).isSome)
    (hop : m.op.handle? = some id.handle) : c.arriving id m = m.op.part?.toList :=
  if_pos ⟨hf, hop⟩

/-- What an operation can do to one stream. -/
inductive Sees (c : Client) (id : StreamId) (op : Operation) (d : Client) (outs : List Output) :
    Prop
  | absent : c.find id = none → d.find id = none → told id outs = [] → .opened id ∉ outs →
      Sees c id op d outs
  | born : op = .start id.handle → c.find id = none → c.nextSerial = id.serial →
      d.find id = some (c.fresh id.handle) → outs = [.opened id] → Sees c id op d outs
  | idle {s t : Stream} : c.find id = some s → d.find id = some t → t.response = s.response →
      (op.handle? = some id.handle →
        op ≠ .cancel id.handle ∧ op.act? c.explicit = none ∧ d.outcomes = c.outcomes) →
      told id outs = [] → Sees c id op d outs
  | cancelled {s : Stream} : op = .cancel id.handle → c.find id = some s → d.find id = none →
      told id outs = [.cancel] →
      d.outcomes = { c.outcomes with cancel := c.outcomes.cancel + 1 } → Sees c id op d outs
  | answered {s t : Stream} {a : Act} : op.handle? = some id.handle →
      op.act? c.explicit = some a → c.find id = some s →
      d.find id = (if (s.response.act a).disposition.isFinal then none else some t) →
      t.response = (s.response.act a).state → told id outs = (s.response.act a).events →
      d.outcomes = c.outcomes.settle (s.response.act a).disposition → Sees c id op d outs

section Sees

variable {c d : Client} {id : StreamId} {op : Operation} {outs : List Output}

/-- An operation on another stream, or on none. -/
theorem Sees.elsewhere (hd : d.entry id.handle = c.entry id.handle)
    (hop : c.entry id.handle ≠ none → op.handle? = some id.handle →
      op ≠ .cancel id.handle ∧ op.act? c.explicit = none ∧ d.outcomes = c.outcomes)
    (ho : told id outs = []) (hn : .opened id ∉ outs) : Sees c id op d outs := by
  have hf := find_congr hd
  cases hs : c.find id with
  | none => exact .absent hs (hf.trans hs) ho hn
  | some s =>
    obtain ⟨-, b, he⟩ := find_eq_some.mp hs
    exact .idle hs (hf.trans hs) rfl (hop (by simp [he])) ho

/-- An operation on another stream, which may be under the same handle. -/
theorem Sees.other {c' : Client} {h : Handle} {b : Bucket} {s : Stream}
    {e : Option (Bucket × Stream)} (hp : Puts c' h e d) (hc : c'.streams = c.streams)
    (he : c.entry h = some (b, s)) (hs : s.id ≠ id) (ht : ∀ {b t}, e = some (b, t) → t.id = s.id)
    (hop : op.handle? = some h) (ho : told id outs = []) (hn : .opened id ∉ outs) :
    Sees c id op d outs := by
  have hd := hp.entry id.handle
  by_cases hh : id.handle = h
  · subst hh
    rw [if_pos rfl] at hd
    refine .absent ?_ ?_ ho hn
    · rw [find_of_entry he]
      simp [Option.filter, hs]
    · rw [find_of_entry hd]
      cases e with
      | none => rfl
      | some bt => simp [Option.filter, ht (b := bt.1) (t := bt.2) rfl, hs]
  · rw [if_neg hh] at hd
    refine .elsewhere (hd.trans ?_) (fun _ hk => ?_) ho hn
    · unfold entry
      rw [hc]
    · rw [hop, Option.some.injEq] at hk
      exact absurd hk.symm hh

theorem act?_of_sends (hs : op.sends) (x : Bool) : op.act? x = none := by
  cases op <;> first | rfl | cases hs

theorem told_answer (s : Stream) (a : Act) :
    told s.id (answer s a) = (s.response.act a).events := by
  unfold answer
  simp only [told_append, told_map_called, told_map_told]
  split <;> simp [told]

theorem told_answer_ne {s : Stream} (hs : s.id ≠ id) (a : Act) : told id (answer s a) = [] := by
  unfold answer
  simp only [told_append, told_map_called, told_map_told_ne hs]
  split <;> simp [told]

theorem opened_notMem_answer (s : Stream) (a : Act) : .opened id ∉ answer s a := by
  unfold answer
  simp only
  split <;> simp

/-- A start, of this stream or another. -/
theorem sees_started {h : Handle} (he : c.entry h = none)
    (hp : Puts { c with nextSerial := c.nextSerial + 1, counters := c.counters.record .started } h
      (some (.opened, c.fresh h)) d) (id : StreamId) :
    Sees c id (.start h) d [.opened ⟨h, c.nextSerial⟩] := by
  have hent := hp.entry id.handle
  by_cases hh : id.handle = h
  · subst hh
    rw [if_pos rfl] at hent
    have hnone : c.find id = none := find_of_entry he
    by_cases hser : c.nextSerial = id.serial
    · have hid : (c.fresh id.handle).id = id := by
        unfold fresh
        rw [hser]
      refine .born rfl hnone hser ?_ (by rw [hser])
      rw [find_of_entry hent]
      simp [Option.filter, hid]
    · have hid : (c.fresh id.handle).id ≠ id := fun h => hser (congrArg StreamId.serial h)
      refine .absent hnone ?_ rfl ?_
      · rw [find_of_entry hent]
        simp [Option.filter, hid]
      · rw [List.mem_singleton, Output.opened.injEq]
        exact fun h => hid h.symm
  · rw [if_neg hh] at hent
    refine .elsewhere hent (fun _ hk => ?_) rfl ?_
    · cases hk
      exact absurd rfl hh
    · rw [List.mem_singleton, Output.opened.injEq]
      rintro rfl
      exact hh rfl

/-- A part of a request, of this stream or another. -/
theorem sees_sent (hc : c.Sound) {h : Handle} {s : Stream} {g : Draws} {last : Bool}
    (call : RequestCall) (hop : op.handle? = some h) (ha : op.sends)
    (he : c.entry h = some (.opened, s))
    (hp : Puts { c with draws := g } h (some (.opened, { s with localClosed := last })) d)
    (id : StreamId) : Sees c id op d [.called s.id call] := by
  by_cases hs : s.id = id
  · obtain rfl : h = id.handle := by rw [← (hc.fits he).handle, hs]
    have hent := (hp.entry id.handle).trans (if_pos rfl)
    have hfind : c.find id = some s := find_eq_some.mpr ⟨hs, _, he⟩
    have hfind' : d.find id = some { s with localClosed := last } := find_eq_some.mpr ⟨hs, _, hent⟩
    refine .idle hfind hfind' rfl (fun _ => ⟨?_, act?_of_sends ha _, hp.outcomes⟩) rfl
    rintro rfl
    cases ha
  · refine .other hp rfl he hs (fun h => ?_) hop rfl (by simp)
    cases h
    rfl

/-- A cancel, of this stream or another. -/
theorem sees_cancelled (hc : c.Sound) {h : Handle} {b : Bucket} {s : Stream}
    (he : c.entry h = some (b, s))
    (hp : Puts { c with
      outcomes.cancel := c.outcomes.cancel + 1
      counters := c.counters.record .cancel
      retired := c.retired ++ [s.ended] } h none d) (id : StreamId) :
    Sees c id (.cancel h) d [.told s.id .cancel, .called s.id (.details cancelDetails),
      .called s.id (.reset .remoteReset), .released s.id.handle] := by
  by_cases hs : s.id = id
  · obtain rfl : h = id.handle := by rw [← (hc.fits he).handle, hs]
    have hent := (hp.entry id.handle).trans (if_pos rfl)
    have hfind : c.find id = some s := find_eq_some.mpr ⟨hs, _, he⟩
    refine .cancelled rfl hfind (find_of_entry hent) ?_ hp.outcomes
    simp [told, hs]
  · exact .other hp rfl he hs (by simp) rfl (by simp [told, hs]) (by simp)

/-- An act on this stream or another. -/
theorem sees_answered (hc : c.Sound) {h : Handle} {b : Bucket} {s : Stream} {a : Act}
    (hop : op.handle? = some h) (ha : op.act? c.explicit = some a) (he : c.entry h = some (b, s))
    (hp : Puts (c.settled s a) h (entryAfter b s a) d) (id : StreamId) :
    Sees c id op d (answer s a) := by
  by_cases hs : s.id = id
  · obtain rfl : h = id.handle := by rw [← (hc.fits he).handle, hs]
    have hent := (hp.entry id.handle).trans (if_pos rfl)
    have hfind : c.find id = some s := find_eq_some.mpr ⟨hs, _, he⟩
    have htold : told id (answer s a) = (s.response.act a).events := hs ▸ told_answer s a
    refine .answered (t := { s with
        remoteClosed := s.remoteClosed || a.closes
        response := (s.response.act a).state }) hop ha hfind ?_ rfl htold hp.outcomes
    rw [find_of_entry hent]
    unfold entryAfter
    split <;> simp [Option.filter, hs]
  · refine .other hp rfl he hs (fun h => ?_) hop (told_answer_ne hs a) (opened_notMem_answer s a)
    unfold entryAfter at h
    split at h <;> cases h
    rfl

theorem sees_of_does (hc : c.Sound) (id : StreamId) (hd : Does c op d outs) :
    Sees c id op d outs := by
  cases hd with
  | @absent _ h hop _ he =>
    refine .elsewhere rfl (fun hn hk => ?_) rfl (by simp)
    rw [hop, Option.some.injEq] at hk
    exact absurd (hk ▸ he) hn
  | taken _ => exact .elsewhere rfl (fun _ _ => ⟨by simp, rfl, rfl⟩) rfl (by simp)
  | unsent _ ha _ =>
    refine .elsewhere rfl (fun _ _ => ⟨?_, act?_of_sends ha _, rfl⟩) rfl (by simp)
    rintro rfl
    cases ha
  | ungranted hg =>
    refine .elsewhere rfl (fun _ _ => ⟨by simp, ?_, rfl⟩) rfl (by simp)
    unfold Operation.act?
    rcases hg with hg | hg <;> simp [hg]
  | swept => exact .elsewhere rfl (fun _ hk => by cases hk) rfl (by simp)
  | started he hp => exact sees_started he hp id
  | sent _ call hop ha he _ hp => exact sees_sent hc call hop ha he hp id
  | cancelled he hp => exact sees_cancelled hc he hp id
  | answered hop ha he hp => exact sees_answered hc hop ha he hp id

theorem sees_advance (hc : c.Sound) (id : StreamId) (m : Move) :
    Sees c id m.op (c.advance m).1 (c.advance m).2 :=
  sees_of_does hc id (does_advance hc.disjoint m)

end Sees

/-- What an operation can do to a registered stream. -/
inductive Serves (c : Client) (id : StreamId) (s : Stream) (op : Operation) (d : Client)
    (events : List Event) : Prop
  | kept {t : Stream} : d.find id = some t → t.response = s.response →
      (op.handle? = some id.handle →
        op ≠ .cancel id.handle ∧ op.act? c.explicit = none ∧ d.outcomes = c.outcomes) →
      events = [] → Serves c id s op d events
  | cancelled : op = .cancel id.handle → d.find id = none → events = [.cancel] →
      d.outcomes = { c.outcomes with cancel := c.outcomes.cancel + 1 } → Serves c id s op d events
  | answered {a : Act} {t : Stream} : op.handle? = some id.handle → op.act? c.explicit = some a →
      (s.response.act a).disposition.isFinal = false → d.find id = some t →
      t.response = (s.response.act a).state → events = (s.response.act a).events →
      d.outcomes = c.outcomes.settle (s.response.act a).disposition → Serves c id s op d events
  | retired {a : Act} : op.handle? = some id.handle → op.act? c.explicit = some a →
      (s.response.act a).disposition.isFinal = true → d.find id = none →
      events = (s.response.act a).events →
      d.outcomes = c.outcomes.settle (s.response.act a).disposition → Serves c id s op d events

theorem serves_advance {c : Client} (hc : c.Sound) {id : StreamId} {s : Stream}
    (hs : c.find id = some s) (m : Move) :
    Serves c id s m.op (c.advance m).1 (told id (c.advance m).2) := by
  cases sees_advance hc id m with
  | absent h _ _ _ | born _ h _ _ _ =>
    rw [hs] at h
    cases h
  | idle hs' hf hr hop ht =>
    obtain rfl := Option.some.inj (hs.symm.trans hs')
    exact .kept hf hr hop ht
  | cancelled hop _ hf ht hout => exact .cancelled hop hf ht hout
  | @answered _ t a hop ha hs' hf hr ht hout =>
    obtain rfl := Option.some.inj (hs.symm.trans hs')
    by_cases hfin : (s.response.act a).disposition.isFinal = true
    · rw [if_pos hfin] at hf
      exact .retired hop ha hfin hf ht hout
    · rw [if_neg hfin] at hf
      exact .answered hop ha (Bool.eq_false_iff.mpr hfin) hf hr ht hout

/-! ### The life of a stream -/

/-- A stream that was started and is not registered is never heard of again. -/
theorem gone_after {c : Client} (hc : c.Sound) {id : StreamId} (hf : c.find id = none)
    (hn : id.serial < c.nextSerial) (ms : List Move) :
    (c.after ms).find id = none ∧ (c.log id ms).flatten = [] ∧ c.arrivals id ms = [] := by
  induction ms generalizing c with
  | nil => exact ⟨hf, rfl, rfl⟩
  | cons m ms ih =>
    have hle := (does_advance hc.disjoint m).nextSerial
    rw [log_cons, List.flatten_cons]
    cases sees_advance hc id m with
    | absent _ hd ho _ =>
      obtain ⟨h1, h2, h3⟩ := ih (sound_advance hc m) hd (by omega)
      refine ⟨h1, by rw [ho, h2]; rfl, ?_⟩
      rw [arrivals_cons, arriving_absent hf, h3]
      rfl
    | born _ _ hser _ _ => omega
    | idle h _ _ _ _ | cancelled _ h _ _ _ | answered _ _ h _ _ _ _ =>
      rw [hf] at h
      cases h

/-- A registered stream that a move takes out of the registry is never heard of
again. -/
theorem gone_of_retired {c : Client} (hc : c.Sound) {id : StreamId} {s : Stream}
    (hs : c.find id = some s) {m : Move} (hf : (c.advance m).1.find id = none) (ms : List Move) :
    ((c.advance m).1.after ms).find id = none ∧ ((c.advance m).1.log id ms).flatten = [] ∧
      (c.advance m).1.arrivals id ms = [] := by
  have hn := (does_advance hc.disjoint m).nextSerial
  have hlt := serial_lt_of_find hc hs
  exact gone_after (sound_advance hc m) hf (by omega) ms

/-- The run in which a stream is started, up to the start and from there on. -/
theorem exists_birth {c : Client} (hc : c.Sound) {id : StreamId} (hf : c.find id = none)
    {ms : List Move} (ho : .opened id ∈ (c.outputs ms).flatten) :
    ∃ before m later, ms = before ++ m :: later ∧ m.op = .start id.handle ∧
      (c.after (before ++ [m])).find id = some ((c.after before).fresh id.handle) ∧
      (c.log id (before ++ [m])).flatten = [] ∧ c.arrivals id (before ++ [m]) = [] := by
  induction ms generalizing c with
  | nil => cases ho
  | cons m ms ih =>
    cases sees_advance hc id m with
    | absent _ hd ht hn =>
      have ho' : .opened id ∈ ((c.advance m).1.outputs ms).flatten :=
        (List.mem_append.mp (List.flatten_cons ▸ ho)).resolve_left hn
      obtain ⟨before, n, later, rfl, hop, hfind, hlog, harr⟩ := ih (sound_advance hc m) hd ho'
      refine ⟨m :: before, n, later, rfl, hop, hfind, ?_, ?_⟩
      · rw [List.cons_append, log_cons, List.flatten_cons, ht, hlog]
        rfl
      · rw [List.cons_append, arrivals_cons, arriving_absent hf, harr]
        rfl
    | born hop _ _ hd ht =>
      refine ⟨[], m, ms, rfl, hop, hd, ?_, ?_⟩
      · rw [List.nil_append, log_cons, ht]
        rfl
      · rw [List.nil_append, arrivals_cons, arriving_absent hf]
        rfl
    | idle h _ _ _ _ | cancelled _ h _ _ _ | answered _ _ h _ _ _ _ =>
      rw [hf] at h
      cases h

/-- A stream that has come into the registry was started. -/
theorem opened_of_find {c : Client} (hc : c.Sound) {id : StreamId} (hf : c.find id = none)
    {ms : List Move} (hs : (c.after ms).find id ≠ none) : .opened id ∈ (c.outputs ms).flatten := by
  induction ms generalizing c with
  | nil => exact absurd hf hs
  | cons m ms ih =>
    unfold outputs
    rw [List.flatten_cons]
    apply List.mem_append.mpr
    cases sees_advance hc id m with
    | absent _ hd _ _ => exact .inr (ih (sound_advance hc m) hd hs)
    | born _ _ _ _ ht => exact .inl (by simp [ht])
    | idle h _ _ _ _ | cancelled _ h _ _ _ | answered _ _ h _ _ _ _ =>
      rw [hf] at h
      cases h

theorem serial_lt_of_opened {c : Client} (hc : c.Sound) {id : StreamId} (hf : c.find id = none)
    {ms : List Move} (ho : .opened id ∈ (c.outputs ms).flatten) :
    id.serial < (c.after ms).nextSerial := by
  obtain ⟨before, m, later, rfl, -, hborn, -, -⟩ := exists_birth hc hf ho
  have hb := sound_after hc (before ++ [m])
  have hlt := serial_lt_of_find hb hborn
  have hle := nextSerial_after hb later
  rw [List.append_cons, after_append]
  omega

/-- Nothing is told of a stream before it is started. -/
theorem log_of_unopened {c : Client} (hc : c.Sound) {id : StreamId} (hnone : c.find id = none)
    {ms : List Move} (ho : .opened id ∉ (c.outputs ms).flatten) : (c.log id ms).flatten = [] := by
  induction ms generalizing c with
  | nil => rfl
  | cons m ms ih =>
    have hfirst : .opened id ∉ (c.advance m).2 := fun h => ho (List.mem_append_left _ h)
    have hlater : .opened id ∉ ((c.advance m).1.outputs ms).flatten := fun h =>
      ho (List.mem_append_right _ h)
    rw [log_cons, List.flatten_cons]
    cases sees_advance hc id m with
    | absent _ hd ht _ => rw [ht, ih (sound_advance hc m) hd hlater, List.append_nil]
    | born _ _ _ _ hout => exact absurd (by simp [hout]) hfirst
    | idle h _ _ _ _ | cancelled _ h _ _ _ | answered _ _ h _ _ _ _ =>
      rw [hnone] at h
      cases h

theorem entry_after {c : Client} (hc : c.Sound) {h : Handle} (he : c.entry h = none)
    {ms : List Move} (hms : ∀ m ∈ ms, m.op ≠ .start h) : (c.after ms).entry h = none := by
  induction ms generalizing c with
  | nil => exact he
  | cons m ms ih =>
    have hd := does_advance hc.disjoint m
    exact ih (sound_advance hc m) (hd.stays_empty he (hms m (by simp)))
      fun n hn => hms n (by simp [hn])

/-- The move that takes a stream out of the registry leaves its handle empty. -/
theorem entry_of_retired {c : Client} (hc : c.Sound) {id : StreamId} {m : Move} (hl : c.Live id)
    (hr : ¬ (c.advance m).1.Live id) : (c.advance m).1.entry id.handle = none := by
  obtain ⟨s, hs⟩ := Option.isSome_iff_exists.mp ((live_iff hc id).mp hl)
  obtain ⟨hid, b, he⟩ := find_eq_some.mp hs
  refine ((does_advance hc.disjoint m).leaves he).resolve_right ?_
  rintro ⟨b', t, ht, hti⟩
  exact hr ⟨id.handle, b', t, ht, hti.trans hid⟩

/-- What is told in a run is told by one of its moves. -/
theorem mem_log {c : Client} {id : StreamId} {ms : List Move} {e : Event} :
    e ∈ (c.log id ms).flatten ↔ ∃ before m later, ms = before ++ m :: later ∧
      e ∈ told id ((c.after before).advance m).2 := by
  induction ms generalizing c with
  | nil => simp [log, outputs]
  | cons m ms ih =>
    rw [log_cons, List.flatten_cons, List.mem_append, ih]
    constructor
    · rintro (h | ⟨before, n, later, rfl, h⟩)
      · exact ⟨[], m, ms, rfl, h⟩
      · exact ⟨m :: before, n, later, rfl, h⟩
    · rintro ⟨before, n, later, hms, h⟩
      rcases List.cons_eq_append_iff.mp hms with ⟨rfl, heq⟩ | ⟨before, rfl, rfl⟩
      · cases heq
        exact .inl h
      · exact .inr ⟨before, n, later, rfl, h⟩

end Client
end HttpExchange
