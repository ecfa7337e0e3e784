/-
# Crossings are counted

Data that waits for credit is kept in a buffer, and each act does at most one
thing to it (`Response.handles_act`): data that is held back is pushed, a grant
drains. The rises above the high mark that it reports are counted.

So the counter misses a rise of a stream's waiting data above the high mark only
where its buffer is high already. From nothing waiting that takes a high mark of
one, and a rise before: such a buffer never falls under its low mark, which is
nothing, and is heard of once (`watermark_episodes_recovered`).

Key definitions: `Response.store`, `Response.Handles`, `Client.Above`,
`Client.Within`.
Key theorems: `Response.handles_act`, `Client.counted_rise`,
`watermark_episodes_recovered`.
-/
import HttpExchange.Config.Validation
import HttpExchange.Proofs.Accounting
import HttpExchange.Proofs.Moves
import HttpExchange.Proofs.Watermark

namespace HttpExchange

theorem Buffer.drain_quiet (b : Buffer) (most : Nat) :
    ((b.drain most).2.2 == some Crossing.aboveHigh) = false := by
  unfold Buffer.drain
  dsimp only
  split <;> rfl

namespace Response

/-- The buffer that data is held back in. -/
def store (s : Response) : Buffer := s.buffer.getD { high := s.high }

theorem bytes_store (s : Response) : s.store.bytes = s.waiting := by
  unfold store waiting
  cases s.buffer <;> rfl

theorem size_store (s : Response) : s.store.size = s.waiting.length :=
  congrArg List.length s.bytes_store

/-- What a reply does to the buffer: nothing, or one action, and then it tells
whether that was reported as a rise above the high mark. -/
inductive Handles (s : Response) (r : Reply) : Prop
  | idle : r.state.store = s.store → r.raised = false → Handles s r
  | acted (a : Buffer.Action) : r.state.store = (s.store.act a).1 →
      r.raised = ((s.store.act a).2 == some .aboveHigh) → Handles s r

section Handles

variable {s : Response}

theorem store_congr {t : Response} (hb : t.buffer = s.buffer) (hh : t.high = s.high) :
    t.store = s.store := by
  unfold store
  rw [hb, hh]

theorem store_receiveEnd (s : Response) (last : Bool) : (s.receiveEnd last).store = s.store := by
  rw [receiveEnd_eq]
  exact store_congr rfl rfl

/-- Nothing is done to the buffer of a stream that ends in its error. -/
theorem handles_fail {t : Response} (ht : t.store = s.store) : Handles s t.fail := by
  have h := t.onFail
  generalize t.fail = r at h ⊢
  cases h with
  | deferred _ _ _ | delivered _ => exact .idle ht rfl

theorem handles_forwardData {t : Response} (ht : t.store = s.store) (bytes : Bytes) (last : Bool) :
    Handles s (t.forwardData bytes last) := by
  cases last with
  | true | false => exact .idle ht rfl

theorem handles_hold {t : Response} (ht : t.store = s.store) (bytes : Bytes) (earlier : List Event) :
    Handles s ((t.hold bytes).after earlier) := by
  apply Handles.acted (.push bytes)
  · rw [← ht]
    rfl
  · rw [← ht]
    rfl

theorem forwardRest_eq (t : Response) :
    t.forwardRest.state.store = t.store ∧ t.forwardRest.raised = false := by
  unfold forwardRest
  split
  · exact ⟨rfl, rfl⟩
  · split
    · exact ⟨rfl, rfl⟩
    · split
      · exact ⟨rfl, rfl⟩
      · exact ⟨rfl, rfl⟩

theorem store_drain (s : Response) (most : Nat) :
    (s.drain most).2.store = s.store ∨ (s.drain most).2.store = (s.store.act (.drain most)).1 := by
  unfold drain
  cases hb : s.buffer with
  | none => exact .inl rfl
  | some b =>
    have hs : s.store = b := by
      unfold store
      rw [hb]
      rfl
    rw [hs]
    exact .inr rfl

/-- A grant drains the buffer, if there is one. -/
theorem handles_resume (s : Response) (credit : Nat) : Handles s (s.resume credit) := by
  -- what is told after the drain does nothing to the buffer
  have rest (t : Response) (chunk : Bytes) (last : Bool) :
      let r := t.forwardData chunk last
      let r' := if r.disposition.isFinal then r else r.state.forwardRest.after r.events
      r'.state.store = t.store ∧ r'.raised = false := by
    cases last with
    | true => exact ⟨rfl, rfl⟩
    | false => exact forwardRest_eq _
  unfold resume
  dsimp only
  split
  · have hdrain := store_drain { s with credit := credit } credit
    generalize ({ s with credit := credit } : Response).drain credit = d at hdrain ⊢
    obtain ⟨chunk, t⟩ := d
    obtain ⟨hstore, hraised⟩ := rest t chunk (t.endReceived && t.trailers.isNone && t.waiting.isEmpty)
    rcases hdrain with hsame | hdrained
    · exact .idle (hstore.trans hsame) hraised
    · exact .acted (.drain credit) (hstore.trans hdrained) (hraised.trans (Buffer.drain_quiet _ _).symm)
  · obtain ⟨hstore, hraised⟩ := forwardRest_eq { s with credit := credit }
    exact .idle hstore hraised

/-- Whatever happens, at most one thing is done to the buffer. -/
theorem handles_act (s : Response) (a : Act) : Handles s (s.act a) := by
  match a with
  | .arrive (.headers block last) =>
    have h := s.onHeaders_spec block last
    change Handles s (s.onHeaders block last)
    generalize s.onHeaders block last = r at h ⊢
    cases h with
    | failing _ _ => exact handles_fail (s.store_receiveEnd last)
    | marked _ _ | passed _ _ => exact .idle rfl rfl
    | completing _ _ => exact .idle (s.store_receiveEnd last) rfl
  | .arrive (.data bytes last) =>
    have h := s.onData_spec bytes last
    change Handles s (s.onData bytes last)
    generalize s.onData bytes last = r at h ⊢
    cases h with
    | failing _ _ => exact handles_fail (s.store_receiveEnd last)
    | suppressed _ _ | empty _ _ _ => exact .idle rfl rfl
    | passed _ _ _ => exact handles_forwardData (s.store_receiveEnd last) bytes last
    | split _ _ _ _ _ =>
      have hstore : ({ s.receiveEnd last with credit := 0 } : Response).store = s.store :=
        s.store_receiveEnd last
      exact handles_hold hstore _ _
    | held _ _ _ _ => exact handles_hold (s.store_receiveEnd last) bytes []
  | .arrive (.trailers block) =>
    have h := s.onTrailers_spec block
    change Handles s (s.onTrailers block)
    generalize s.onTrailers block = r at h ⊢
    cases h with
    | failing _ => exact handles_fail (s.store_receiveEnd true)
    | parked _ _ _ | passed _ _ => exact .idle (s.store_receiveEnd true) rfl
  | .arrive (.reset _) =>
    have h := s.onReset_spec
    change Handles s s.onReset
    generalize s.onReset = r at h ⊢
    cases h with
    | ignored _ => exact .idle rfl rfl
    | failing _ => exact handles_fail rfl
  | .grant credit => exact s.handles_resume credit

/-- The buffer has a certain high mark, and is low or high. -/
structure Watched (s : Response) (high : Nat) : Prop where
  high : s.store.high = high
  level : s.store.Level

theorem watched_new (explicit : Bool) (high : Nat) :
    ({ explicit := explicit, high := high } : Response).Watched high where
  high := rfl
  level := Buffer.level_new high

theorem watched_act {high : Nat} (hs : s.Watched high) (a : Act) : (s.act a).state.Watched high := by
  cases s.handles_act a with
  | idle hstore _ =>
    refine ⟨?_, ?_⟩
    · rw [hstore]
      exact hs.high
    · rw [hstore]
      exact hs.level
  | acted b hstore _ =>
    refine ⟨?_, ?_⟩
    · rw [hstore, Buffer.high_act]
      exact hs.high
    · rw [hstore]
      exact Buffer.level_act hs.level b

/-- A buffer with no length under its low mark stays high. -/
theorem stuck_act {high : Nat} (hs : s.Watched high) (hlow : high / 2 = 0)
    (hr : s.store.raised = true) (a : Act) : (s.act a).state.store.raised = true := by
  cases s.handles_act a with
  | idle hstore _ =>
    rw [hstore]
    exact hr
  | acted b hstore _ =>
    have hnone : s.store.low = 0 := by
      rw [← hlow, ← hs.high]
      rfl
    rw [hstore]
    exact (Buffer.reports_stuck hs.level hr hnone [b]).2

/-- A low buffer stays low unless it is above its high mark afterwards. -/
theorem low_act {high : Nat} (hs : s.Watched high) (hr : s.store.raised = false) {a : Act}
    (hwithin : (s.act a).state.waiting.length ≤ high) : (s.act a).state.store.raised = false := by
  rw [← size_store] at hwithin
  cases s.handles_act a with
  | idle hstore _ =>
    rw [hstore]
    exact hr
  | acted b hstore _ =>
    have hcross := Buffer.act_crosses hs.level b
    rw [hstore] at hwithin ⊢
    rw [← hs.high] at hwithin
    generalize s.store.act b = r at hcross hwithin ⊢
    obtain ⟨d, report⟩ := r
    cases hcross with
    | low _ hd _ | falls _ hd _ => exact hd
    | rises _ _ hlt => exact absurd hwithin (Nat.not_le_of_lt hlt)
    | high hhi _ _ =>
      rw [hr] at hhi
      cases hhi

/-- An act that takes what waits above the high mark reports it, unless the
buffer was high before. -/
theorem raised_act {high : Nat} (hs : s.Watched high) (hwithin : s.waiting.length ≤ high) {a : Act}
    (habove : high < (s.act a).state.waiting.length) : (s.act a).raised = !s.store.raised := by
  rw [← size_store] at hwithin habove
  cases s.handles_act a with
  | idle hstore _ =>
    rw [hstore] at habove
    exact absurd habove (Nat.not_lt_of_le hwithin)
  | acted b hstore hraised =>
    have hcross := Buffer.act_crosses hs.level b
    have hle := s.store.low_le_high
    rw [hraised]
    rw [hstore, ← hs.high] at habove
    generalize s.store.act b = r at hcross habove ⊢
    obtain ⟨d, report⟩ := r
    cases hcross with
    | rises hr _ _ =>
      rw [hr]
      rfl
    | high hr _ _ =>
      rw [hr]
      rfl
    | low _ _ hd => exact absurd habove (Nat.not_lt_of_le hd)
    | falls _ _ hd =>
      have hbelow := Nat.lt_of_lt_of_le hd hle
      exact absurd habove (Nat.not_lt_of_lt hbelow)

end Handles

end Response

namespace Client

/-- More waits for a registered stream than its high mark. -/
def Above (c : Client) (id : StreamId) : Prop :=
  ∃ s, c.find id = some s ∧ c.highWatermark < s.response.waiting.length

/-- What waits for a registered stream is within its high mark. -/
def Within (c : Client) (id : StreamId) : Prop :=
  ∃ s, c.find id = some s ∧ s.response.waiting.length ≤ c.highWatermark

theorem Within.not_above {c : Client} {id : StreamId} (hw : c.Within id) : ¬ c.Above id := by
  rintro ⟨s, hs, hlt⟩
  obtain ⟨t, ht, hle⟩ := hw
  obtain rfl := Option.some.inj (hs.symm.trans ht)
  exact absurd hle (Nat.not_le_of_lt hlt)

section Stream

variable {c : Client} {id : StreamId} {s : Stream}

theorem watched_of_find (hc : c.Sound) (hnone : c.find id = none) {ms : List Move}
    (hs : (c.after ms).find id = some s) : s.response.Watched c.highWatermark :=
  (course_of_find hc hnone hs).invariant (P := fun r _ _ => r.Watched c.highWatermark)
    (fun _ hr _ => Response.watched_act hr _) c.balanced_newborn (Response.watched_new _ _)

/-- The buffer of a registered stream is low. -/
def Low (c : Client) (id : StreamId) : Prop :=
  ∀ s, c.find id = some s → s.response.Watched c.highWatermark ∧ s.response.store.raised = false

theorem low_advance (hc : c.Sound) (hl : c.Low id) {m : Move} (hm : ¬ (c.advance m).1.Above id) :
    (c.advance m).1.Low id := by
  have hhigh := (does_advance hc.disjoint m).highWatermark
  intro t ht
  have hwithin : t.response.waiting.length ≤ c.highWatermark := by
    by_contra hlt
    exact hm ⟨t, ht, by omega⟩
  rw [hhigh]
  cases sees_advance hc id m with
  | absent _ hf _ _ =>
    rw [ht] at hf
    cases hf
  | cancelled _ _ hf _ _ =>
    rw [ht] at hf
    cases hf
  | born _ _ _ hf _ =>
    obtain rfl := Option.some.inj (ht.symm.trans hf)
    exact ⟨Response.watched_new _ _, rfl⟩
  | idle hs hf hr _ _ =>
    obtain rfl := Option.some.inj (ht.symm.trans hf)
    rw [hr]
    exact hl _ hs
  | @answered s t' a _ _ hs hf hr _ _ =>
    split at hf
    · rw [ht] at hf
      cases hf
    · obtain rfl := Option.some.inj (ht.symm.trans hf)
      obtain ⟨hwatched, hlow⟩ := hl s hs
      rw [hr] at hwithin ⊢
      exact ⟨Response.watched_act hwatched a, Response.low_act hwatched hlow hwithin⟩

/-- As long as no more waits than its high mark, the buffer of a stream stays low. -/
theorem low_after (hc : c.Sound) (hl : c.Low id) {ms : List Move}
    (hms : ∀ p, p <+: ms → ¬ (c.after p).Above id) : (c.after ms).Low id := by
  induction ms generalizing c with
  | nil => exact hl
  | cons m ms ih =>
    apply ih (sound_advance hc m)
    · exact low_advance hc hl (hms [m] (List.prefix_append [m] ms))
    · exact fun p hp => hms (m :: p) (List.cons_prefix_cons.mpr ⟨rfl, hp⟩)

/-- With a high mark of one, the buffer of a stream that was above it stays high. -/
theorem raised_after (hc : c.Sound) (hs : c.find id = some s)
    (hw : s.response.Watched c.highWatermark) (hone : c.highWatermark = 1)
    (habove : c.highWatermark < s.response.waiting.length) {ms : List Move} {t : Stream}
    (ht : (c.after ms).find id = some t) : t.response.store.raised = true := by
  have hr : s.response.store.raised = true := by
    apply hw.level.raised
    rw [hw.high, Response.size_store]
    exact habove
  have hlow : c.highWatermark / 2 = 0 := by rw [hone]
  exact (kept_after hc (P := fun r => r.Watched c.highWatermark ∧ r.store.raised = true)
    (fun _ hr _ => ⟨Response.watched_act hr.1 _, Response.stuck_act hr.1 hlow hr.2 _⟩)
    hs ⟨hw, hr⟩ ht).2

/-- A rise above the high mark is counted, unless the buffer was high before. -/
theorem counted_rise (hc : c.Sound) (hon : c.counters.enabled = true) (hs : c.find id = some s)
    (hw : s.response.Watched c.highWatermark)
    (hwithin : s.response.waiting.length ≤ c.highWatermark) {m : Move}
    (habove : (c.advance m).1.Above id) :
    (c.advance m).1.counters.highWatermark =
      c.counters.highWatermark + if s.response.store.raised = true then 0 else 1 := by
  obtain ⟨t, ht, hlt⟩ := habove
  rw [(does_advance hc.disjoint m).highWatermark] at hlt
  cases serves_advance hc hs m with
  | kept hf hr _ _ =>
    obtain rfl := Option.some.inj (ht.symm.trans hf)
    rw [hr] at hlt
    exact absurd hwithin (Nat.not_le_of_lt hlt)
  | cancelled _ hf _ _ =>
    rw [ht] at hf
    cases hf
  | retired _ _ _ hf _ _ =>
    rw [ht] at hf
    cases hf
  | @answered a t' hop ha hfin hf hr _ _ =>
    obtain rfl := Option.some.inj (ht.symm.trans hf)
    rw [hr] at hlt
    have hraised := Response.raised_act hw hwithin hlt
    obtain ⟨-, b, he⟩ := find_eq_some.mp hs
    have hcounters := (advance_answered hc hop ha he).2.counters
    have hunfinished : (s.response.act a).disposition = .unfinished := by
      cases hd : (s.response.act a).disposition with
      | unfinished => rfl
      | completed _ | failed =>
        rw [hd] at hfin
        cases hfin
    rw [hcounters]
    unfold settled
    dsimp only
    rw [hunfinished, hraised]
    cases s.response.store.raised with
    | true => rfl
    | false =>
      have hrecord := c.counters.get_record .highWatermark .highWatermark
      rw [hon] at hrecord
      exact hrecord

/-- From nothing waiting, the next rise above the high mark is counted, unless the
high mark is one and it is not the first. -/
theorem counted_rise_of_empty (hc : c.Sound) (hnone : c.find id = none)
    (hpos : 0 < c.highWatermark) {ms next : List Move}
    (hempty : ∃ s, (c.after ms).find id = some s ∧ s.response.waiting = [])
    (hwithin : ∀ p, p <+: next → (c.after (ms ++ p)).Within id) {m : Move}
    (hon : (c.after (ms ++ next)).counters.enabled = true)
    (habove : (c.after (ms ++ next ++ [m])).Above id) :
    ((c.highWatermark = 1 → ∀ p, p <+: ms → ¬ (c.after p).Above id) →
      (c.after (ms ++ next ++ [m])).counters.highWatermark =
        (c.after (ms ++ next)).counters.highWatermark + 1) ∧
    (c.highWatermark = 1 → (∃ p, p <+: ms ∧ (c.after p).Above id) →
      (c.after (ms ++ next ++ [m])).counters.highWatermark =
        (c.after (ms ++ next)).counters.highWatermark) := by
  have hms := sound_after hc ms
  have hhigh := highWatermark_after hc (ms ++ next)
  obtain ⟨s, hs, hle⟩ := hwithin next (List.prefix_refl next)
  have hw := watched_of_find hc hnone hs
  rw [after_append c (ms ++ next)] at habove ⊢
  have hcount := counted_rise (sound_after hc (ms ++ next)) hon hs (hhigh.symm ▸ hw) hle habove
  refine ⟨fun hfirst => ?_, fun hone hbefore => ?_⟩
  · -- the buffer is low where nothing waits, and stays so
    have hlow : (c.after ms).Low id := by
      by_cases hone : c.highWatermark = 1
      · apply low_after hc
        · intro t ht
          rw [hnone] at ht
          cases ht
        · exact hfirst hone
      · intro t ht
        obtain ⟨u, hu, hnothing⟩ := hempty
        obtain rfl := Option.some.inj (ht.symm.trans hu)
        have ht' := watched_of_find hc hnone ht
        refine ⟨(highWatermark_after hc ms).symm ▸ ht', ?_⟩
        apply ht'.level.low_of_empty
        · rw [Response.size_store, hnothing]
          rfl
        · unfold Buffer.low
          rw [ht'.high]
          omega
    have hsame : (c.after (ms ++ next)).Low id := by
      rw [after_append]
      apply low_after hms hlow
      intro p hp
      rw [← after_append]
      exact (hwithin p hp).not_above
    rw [(hsame s hs).2] at hcount
    exact hcount
  · -- the buffer was above a high mark of one before, and is high for good
    obtain ⟨p, ⟨q, rfl⟩, u, hu, hlt⟩ := hbefore
    have hp := highWatermark_after hc p
    have hup := watched_of_find hc hnone hu
    have hfind : ((c.after p).after (q ++ next)).find id = some s := by
      rw [← after_append, ← List.append_assoc]
      exact hs
    have hr := raised_after (sound_after hc p) hu (hp.symm ▸ hup) (hp.trans hone) hlt hfind
    rw [if_pos hr] at hcount
    exact hcount

end Stream

/-- Counters that are switched on stay so. -/
theorem enabled_after (config : Config) (draws : Draws)
    (hon : config.observability.metricsEnabled = true) (ms : List Move) :
    ((ofConfig config draws).after ms).counters.enabled = true := by
  have hshows : (ofConfig config draws).Shows := ⟨hon, rfl, fun o => by cases o <;> rfl⟩
  exact ((counters_after (sound_ofConfig config draws) ms).2 hshows).enabled

end Client

theorem zeroWatermark_notMem_iff (config : Config) :
    .zeroWatermark ∉ config.issues ↔ 0 < config.flowControl.highWatermark := by
  unfold Config.issues
  by_cases h : config.flowControl.highWatermark = 0
  · simp [h]
  · simp [h, Nat.pos_of_ne_zero h]

/-- Take any high mark that passes the checks. A buffer that was above it and
comes to be empty has reported that it fell under its low mark if and only if the
high mark is not one; its next rise is reported under the same condition. So the
counter of rises goes up with every rise of what waits for a stream from nothing
to above the high mark, apart from those after the first one with a high mark of
one. -/
theorem watermark_episodes_recovered (config : Config) (draws : Draws)
    (hvalid : .zeroWatermark ∉ config.issues) :
    let high := config.flowControl.highWatermark
    let c := Client.ofConfig config draws
    (∀ first later, high < (({ high := high } : Buffer).after first).size →
      let b := ({ high := high } : Buffer).after first
      (b.after later).isEmpty = true →
        ((b.reports later).head? = some .belowLow ↔ high ≠ 1) ∧
        ∀ next a, (∀ p, p <+: next → ((b.after later).after p).size ≤ high) →
          high < ((b.after later).after (next ++ [a])).size →
          (b.after later).reports (next ++ [a]) = if high = 1 then [] else [.aboveHigh]) ∧
    (config.observability.metricsEnabled = true → ∀ id ms next m,
      (∃ s, (c.after ms).find id = some s ∧ s.response.waiting = []) →
      (∀ p, p <+: next → (c.after (ms ++ p)).Within id) →
      (c.after (ms ++ next ++ [m])).Above id →
      ((high = 1 → ∀ p, p <+: ms → ¬ (c.after p).Above id) →
        (c.after (ms ++ next ++ [m])).counters.highWatermark =
          (c.after (ms ++ next)).counters.highWatermark + 1) ∧
      (high = 1 → (∃ p, p <+: ms ∧ (c.after p).Above id) →
        (c.after (ms ++ next ++ [m])).counters.highWatermark =
          (c.after (ms ++ next)).counters.highWatermark)) := by
  intro high c
  have hpos : 0 < high := (zeroWatermark_notMem_iff config).mp hvalid
  have hc : c.Sound := Client.sound_ofConfig config draws
  refine ⟨fun first later habove => ?_, fun hon id ms next m hempty hwithin habove => ?_⟩
  · intro b hempty
    have hhigh : b.high = high := Buffer.high_after _ first
    have hlevel : b.Level := Buffer.level_after (Buffer.level_new high) first
    rw [← hhigh]
    apply Buffer.recovers_iff hlevel
    · rwa [hhigh]
    · rwa [hhigh]
    · exact hempty
  · have henabled := Client.enabled_after config draws hon (ms ++ next)
    exact Client.counted_rise_of_empty hc rfl hpos hempty hwithin henabled habove

/-- Three bytes come in, go out, and three more come in. With a high mark of two
both rises are reported. With a high mark of one the second is not, neither by
the buffer nor in the counter of a stream that goes through the same. -/
theorem watermark_episodes_at_two_and_one :
    let at2 : Config := { flowControl := { explicit := true, highWatermark := 2 } }
    let at1 : Config := { flowControl := { explicit := true, highWatermark := 1 } }
    let id : StreamId := ⟨⟨1⟩, 0⟩
    let ms := [Operation.start ⟨1⟩, .onHeaders ⟨1⟩ ⟨[(":status", "200")]⟩ false,
      .onData ⟨1⟩ [1, 2, 3] false, .resume ⟨1⟩ 3].map (Move.mk · .generic)
    let m : Move := ⟨.onData ⟨1⟩ [4, 5, 6] false, .generic⟩
    let rise : List Buffer.Action := [.push [1, 2, 3]]
    (.zeroWatermark ∉ at2.issues ∧ .zeroWatermark ∉ at1.issues ∧
      at1.observability.metricsEnabled = true ∧
      ((Client.ofConfig at1 {}).after (ms ++ [m])).Above id) ∧
    (((({ high := 2 } : Buffer).after rise).reports [.drain 3]).head? = some .belowLow ∧
      ((({ high := 2 } : Buffer).after rise).after [.drain 3]).reports rise = [.aboveHigh]) ∧
    (((({ high := 1 } : Buffer).after rise).reports [.drain 3]).head? ≠ some .belowLow ∧
      ((({ high := 1 } : Buffer).after rise).after [.drain 3]).reports rise = []) ∧
    ((Client.ofConfig at1 {}).after (ms ++ [m])).counters.highWatermark =
      ((Client.ofConfig at1 {}).after ms).counters.highWatermark := by
  intro at2 at1 id ms m rise
  have hvalid2 : .zeroWatermark ∉ at2.issues := (zeroWatermark_notMem_iff at2).mpr (by decide)
  have hvalid1 : .zeroWatermark ∉ at1.issues := (zeroWatermark_notMem_iff at1).mpr (by decide)
  -- how much waits after the first rise, after the grant, and after the second rise
  have waits (run : List Move) (n : Nat)
      (h : (((Client.ofConfig at1 {}).after run).find id).map (·.response.waiting.length) =
        some n) :
      ∃ s, ((Client.ofConfig at1 {}).after run).find id = some s ∧ s.response.waiting.length = n :=
    Option.map_eq_some_iff.mp h
  obtain ⟨s, hs, hnone⟩ := waits ms 0 (by decide)
  obtain ⟨t, ht, hthree⟩ := waits (ms ++ [m]) 3 (by decide)
  obtain ⟨u, hu, hfirst⟩ := waits (ms.take 3) 3 (by decide)
  have hhigh (run : List Move) : ((Client.ofConfig at1 {}).after run).highWatermark = 1 :=
    Client.highWatermark_after (Client.sound_ofConfig at1 {}) run
  have habove : ((Client.ofConfig at1 {}).after (ms ++ [m])).Above id :=
    ⟨t, ht, by rw [hhigh, hthree]; decide⟩
  obtain ⟨hbuffer2, -⟩ := watermark_episodes_recovered at2 {} hvalid2
  obtain ⟨hbuffer1, hcounter⟩ := watermark_episodes_recovered at1 {} hvalid1
  obtain ⟨hfell, hagain⟩ := hbuffer2 rise [.drain 3] (by decide) (by decide)
  obtain ⟨hstayed, hsilent⟩ := hbuffer1 rise [.drain 3] (by decide) (by decide)
  have hbefore : ((Client.ofConfig at1 {}).after (ms.take 3)).Above id :=
    ⟨u, hu, by rw [hhigh, hfirst]; decide⟩
  have hempty : s.response.waiting = [] := List.length_eq_zero_iff.mp hnone
  have hwithin : ∀ p, p <+: [] → ((Client.ofConfig at1 {}).after (ms ++ p)).Within id := by
    intro p hp
    rw [List.prefix_nil.mp hp, List.append_nil]
    exact ⟨s, hs, by rw [hnone]; exact Nat.zero_le _⟩
  have hrise : ((Client.ofConfig at1 {}).after (ms ++ [] ++ [m])).Above id := by
    rw [List.append_nil]
    exact habove
  obtain ⟨-, hlost⟩ := hcounter rfl id ms [] m ⟨s, hs, hempty⟩ hwithin hrise
  have hsame := hlost rfl ⟨ms.take 3, List.take_prefix 3 ms, hbefore⟩
  rw [List.append_nil] at hsame
  refine ⟨⟨hvalid2, hvalid1, rfl, habove⟩, ⟨?_, ?_⟩, ⟨?_, ?_⟩, ?_⟩
  · exact hfell.mpr (by decide)
  · refine hagain [] (.push [1, 2, 3]) (fun p hp => ?_) (by decide)
    rw [List.prefix_nil.mp hp]
    decide
  · exact fun h => hstayed.mp h rfl
  · refine hsilent [] (.push [1, 2, 3]) (fun p hp => ?_) (by decide)
    rw [List.prefix_nil.mp hp]
    decide
  · exact hsame

end HttpExchange
