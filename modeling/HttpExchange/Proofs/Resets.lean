/-
# Resets of a request object

The request object of a stream is told of every reset that finds the stream
registered, with its reason, and of a cancel that finds it; nothing else resets
it (`Client.calls_of_resets`). A cancel retires the stream, and so does a reset,
unless the end of the response is known already or the error has to wait for
credit. One object is reset twice only when such a reset came before, and that
takes flow control (`Client.resets_one_for_one`).

Key definitions: `Operation.reset?`, `Response.outlivesReset`, `Client.resets`.
Key theorems: `Response.isFinal_onReset`, `Client.calls_of_resets`,
`Client.exists_outlived`, `Client.resets_one_for_one`.
-/
import HttpExchange.Proofs.Outbound

namespace HttpExchange

/-- The reason an operation gives to the request object under a handle, if it is
one that resets it. A cancel passes for a reset by the remote side. -/
def Operation.reset? (h : Handle) : Operation → Option ResetReason
  | onReset k reason => if k = h then some reason else none
  | cancel k => if k = h then some .remoteReset else none
  | _ => none

theorem Operation.reset?_eq_some {h : Handle} {op : Operation} {reason : ResetReason} :
    op.reset? h = some reason ↔
      op = .onReset h reason ∨ op = .cancel h ∧ reason = .remoteReset := by
  cases op with
  | onReset k r =>
    by_cases hk : k = h
    · simp [reset?, hk]
    · simp [reset?, hk]
  | cancel k =>
    by_cases hk : k = h
    · simp [reset?, hk, eq_comm]
    · simp [reset?, hk]
  | start _ | sendHeaders _ _ _ | sendData _ _ _ | sendTrailers _ _ | resume _ _
  | onHeaders _ _ _ | onData _ _ _ | onTrailers _ _ | sweep => simp [reset?]

/-- An operation that ends the remote side by other means than a reset tells the
request object nothing. -/
theorem Operation.act?_of_stops {h : Handle} {op : Operation} (hs : op.stops h = true)
    (hr : op.reset? h = none) (explicit : Bool) :
    ∃ a, op.act? explicit = some a ∧ a.calls = [] := by
  cases op with
  | onHeaders _ block last => exact ⟨.arrive (.headers block last), rfl, rfl⟩
  | onData _ bytes last => exact ⟨.arrive (.data bytes last), rfl, rfl⟩
  | onTrailers _ block => exact ⟨.arrive (.trailers block), rfl, rfl⟩
  | onReset k _ | cancel k =>
    obtain rfl : k = h := by simpa [stops] using hs
    simp [reset?] at hr
  | start _ | sendHeaders _ _ _ | sendData _ _ _ | sendTrailers _ _ | resume _ _ | sweep =>
    cases hs

namespace Response

/-- A reset does not end the stream: the end of the response is known already, or
the error has to wait for credit. -/
def outlivesReset (s : Response) : Bool :=
  s.endReceived || s.explicit && s.headersForwarded && s.credit == 0

theorem isFinal_onReset (s : Response) :
    s.onReset.disposition.isFinal = !s.outlivesReset := by
  have hspec := s.onReset_spec
  generalize s.onReset = r at hspec ⊢
  unfold outlivesReset
  cases hspec with
  | ignored he => simp [he, Disposition.isFinal]
  | failing he =>
    have hfail := onFail { s with error := some (s.error.getD .reset) }
    generalize Response.fail _ = r at hfail ⊢
    rw [he, Bool.false_or]
    cases hfail with
    | deferred hx hh hc =>
      dsimp only at hx hh hc
      rw [hx, hh, hc]
      rfl
    | delivered hpos =>
      dsimp only at hpos
      have hno : (s.explicit && s.headersForwarded && s.credit == 0) = false := by
        by_contra hyes
        obtain ⟨hx, hh, hc⟩ : s.explicit = true ∧ s.headersForwarded = true ∧ s.credit = 0 := by
          simpa using hyes
        have := hpos hx hh
        omega
      rw [hno]
      rfl

/-- Without flow control every reset ends the stream. -/
theorem Balanced.explicit_of_outlives {s : Response} (hb : s.Balanced)
    (ho : s.outlivesReset = true) : s.explicit = true := by
  by_contra hx
  have hx : s.explicit = false := by simpa using hx
  have he : s.endReceived = true := by simpa [outlivesReset, hx] using ho
  exact hb.not_owing hx (.inl he)

end Response

namespace Client

variable {c : Client} {id : StreamId} {m : Move}

/-- The reason a move gives to the request object of a stream: it has to find the
stream registered. -/
def resetting (c : Client) (id : StreamId) (m : Move) : List ResetReason :=
  if (c.find id).isSome then (m.op.reset? id.handle).toList else []

/-- The reasons that the request object of a stream is given in a run. -/
def resets (c : Client) (id : StreamId) : List Move → List ResetReason
  | [] => []
  | m :: ms => c.resetting id m ++ (c.advance m).1.resets id ms

theorem resets_cons (c : Client) (id : StreamId) (m : Move) (ms : List Move) :
    c.resets id (m :: ms) = c.resetting id m ++ (c.advance m).1.resets id ms := rfl

theorem length_resetting_le (c : Client) (id : StreamId) (m : Move) :
    (c.resetting id m).length ≤ 1 := by
  unfold resetting
  split
  · exact Option.length_toList_le
  · exact Nat.zero_le 1

theorem exists_of_resetting (hm : c.resetting id m ≠ []) :
    ∃ s reason, c.find id = some s ∧ m.op.reset? id.handle = some reason := by
  unfold resetting at hm
  split at hm
  · rename_i hsome
    obtain ⟨s, hs⟩ := Option.isSome_iff_exists.mp hsome
    obtain ⟨reason, hr⟩ := Option.ne_none_iff_exists'.mp (mt Option.toList_eq_nil_iff.mpr hm)
    exact ⟨s, reason, hs, hr⟩
  · exact absurd rfl hm

/-! ### One move -/

theorem called_of_act (hc : c.Sound) {s : Stream} (hs : c.find id = some s) {a : Act}
    (hop : m.op.handle? = some id.handle) (ha : m.op.act? c.explicit = some a) :
    called id (c.advance m).2 = a.calls := by
  obtain ⟨rfl, b, he⟩ := find_eq_some.mp hs
  rw [(advance_answered hc hop ha he).1]
  exact called_answer s a

/-- A move that resets a request object does so once. -/
theorem called_of_reset (hc : c.Sound) {s : Stream} (hs : c.find id = some s)
    {reason : ResetReason} (hr : m.op.reset? id.handle = some reason) :
    (called id (c.advance m).2).filter RequestCall.isReset = [.reset reason] := by
  rcases Operation.reset?_eq_some.mp hr with hop | ⟨hop, rfl⟩
  · have ha : m.op.act? c.explicit = some (.arrive (.reset reason)) := by
      rw [hop]
      rfl
    rw [called_of_act hc hs (by rw [hop]; rfl) ha]
    rfl
  · have hl : c.Live id := (live_iff hc id).mpr (by simp [hs])
    rw [cancel_outputs hc hop hl]
    simp [called, RequestCall.isReset]

theorem called_of_no_reset (hc : c.Sound) (hf : c.Filed) (hr : m.op.reset? id.handle = none) :
    (called id (c.advance m).2).filter RequestCall.isReset = [] := by
  cases requests_advance hc hf id m with
  | passed _ _ _ _ hpass ho _ =>
    rw [ho]
    cases hpass <;> simp [called, RequestCall.isReset]
  | quiet ho _ =>
    rw [ho]
    rfl
  | stopped hsome hstop _ _ =>
    obtain ⟨s, hs⟩ := Option.isSome_iff_exists.mp hsome
    obtain ⟨a, ha, hcalls⟩ := Operation.act?_of_stops hstop hr c.explicit
    rw [called_of_act hc hs (stops_handle hstop) ha, hcalls]
    rfl

theorem resets_advance (hc : c.Sound) (hf : c.Filed) (id : StreamId) (m : Move) :
    (called id (c.advance m).2).filter RequestCall.isReset =
      (c.resetting id m).map RequestCall.reset := by
  unfold resetting
  cases hs : c.find id with
  | none =>
    rw [called_of_find_none hc hf hs]
    rfl
  | some s =>
    rw [Option.isSome_some, if_pos rfl]
    cases hr : m.op.reset? id.handle with
    | none => exact called_of_no_reset hc hf hr
    | some reason => exact called_of_reset hc hs hr

/-- Where a reset leaves the stream it finds. -/
theorem at_after_reset (hc : c.Sound) {s : Stream} (hs : c.find id = some s)
    {reason : ResetReason} (hm : m.op = .onReset id.handle reason) :
    (c.advance m).1.At id (if s.response.outlivesReset then .closed else .retired) := by
  obtain ⟨hid, b, he⟩ := find_eq_some.mp hs
  have ha : m.op.act? c.explicit = some (.arrive (.reset reason)) := by
    rw [hm]
    rfl
  have hd := sound_advance hc m
  have hp := (advance_answered hc (by rw [hm]; rfl) ha he).2
  have hent := (hp.entry id.handle).trans (if_pos rfl)
  have hret := hp.retired
  have hfin : (s.response.act (.arrive (.reset reason))).disposition.isFinal =
      !s.response.outlivesReset := s.response.isFinal_onReset
  unfold entryAfter at hent
  unfold settled at hret
  dsimp only at hret
  rw [hfin] at hent hret
  cases ho : s.response.outlivesReset with
  | true =>
    rw [ho] at hent
    exact (at_bucket hd .closed).mpr ⟨_, hent, hid⟩
  | false =>
    rw [ho, Bool.not_false, if_pos rfl] at hret
    refine ⟨{ s with response := (s.response.act (.arrive (.reset reason))).state }.ended, ?_, hid⟩
    rw [hret]
    exact List.mem_append_right _ (List.mem_singleton_self _)

theorem at_after_cancel (hc : c.Sound) {s : Stream} (hs : c.find id = some s)
    (hm : m.op = .cancel id.handle) : (c.advance m).1.At id .retired := by
  obtain ⟨hid, b, he⟩ := find_eq_some.mp hs
  refine ⟨s.ended, ?_, hid⟩
  rw [(advance_cancelled hc hm he).2.retired]
  exact List.mem_append_right _ (List.mem_singleton_self _)

/-! ### Runs -/

/-- The request object is reset once for every operation that resets a registered
stream, in order. -/
theorem calls_of_resets (hc : c.Sound) (hf : c.Filed) (id : StreamId) (ms : List Move) :
    (called id (c.outputs ms).flatten).filter RequestCall.isReset =
      (c.resets id ms).map RequestCall.reset := by
  induction ms generalizing c with
  | nil => rfl
  | cons m ms ih =>
    have hrest := ih (sound_advance hc m) (filed_advance hc hf m)
    calc (called id (c.outputs (m :: ms)).flatten).filter RequestCall.isReset
        = (called id (c.advance m).2).filter RequestCall.isReset ++
            (called id ((c.advance m).1.outputs ms).flatten).filter RequestCall.isReset := by
          rw [← List.filter_append, ← called_append]
          rfl
      _ = (c.resetting id m).map RequestCall.reset ++
            ((c.advance m).1.resets id ms).map RequestCall.reset := by
          rw [resets_advance hc hf, hrest]
      _ = (c.resets id (m :: ms)).map RequestCall.reset := by
          rw [resets_cons, List.map_append]

/-- Nothing is called for a stream that was retired. -/
theorem called_of_retired (hc : c.Sound) (hf : c.Filed) (hs : c.Shelved)
    (hret : c.At id .retired) (ms : List Move) : called id (c.outputs ms).flatten = [] := by
  obtain ⟨s, hmem, rfl⟩ := hret
  obtain ⟨hnone, hlt⟩ := hs.gone hmem
  clear hs hmem
  induction ms generalizing c with
  | nil => rfl
  | cons m ms ih =>
    have hle := (does_advance hc.disjoint m).nextSerial
    have hgone := (gone_after hc hnone hlt [m]).1
    have hrest := ih (sound_advance hc m) (filed_advance hc hf m) hgone (by omega)
    unfold outputs
    rw [List.flatten_cons, called_append, called_of_find_none hc hf hnone, hrest]
    rfl

theorem resets_of_retired (hc : c.Sound) (hf : c.Filed) (hs : c.Shelved)
    (hret : c.At id .retired) (ms : List Move) : c.resets id ms = [] := by
  have hcalls := calls_of_resets hc hf id ms
  rw [called_of_retired hc hf hs hret ms] at hcalls
  exact List.map_eq_nil_iff.mp hcalls.symm

/-- A request object that is reset twice was reset the first time by a reset that
its stream outlived. -/
theorem exists_outlived (hc : c.Sound) (hf : c.Filed) (hs : c.Shelved) {ms : List Move}
    (htwo : 2 ≤ (c.resets id ms).length) :
    ∃ before m later reason s, ms = before ++ m :: later ∧ c.resets id before = [] ∧
      m.op = .onReset id.handle reason ∧ (c.after before).find id = some s ∧
      s.response.outlivesReset = true := by
  induction ms generalizing c with
  | nil => cases htwo
  | cons m ms ih =>
    have hd := sound_advance hc m
    have hf' := filed_advance hc hf m
    have hs' := shelved_advance hc hs m
    rw [resets_cons, List.length_append] at htwo
    by_cases hnow : c.resetting id m = []
    · rw [hnow, List.length_nil, Nat.zero_add] at htwo
      obtain ⟨before, n, later, reason, s, rfl, hnone, hn⟩ := ih hd hf' hs' htwo
      refine ⟨m :: before, n, later, reason, s, rfl, ?_, hn⟩
      rw [resets_cons, hnow, hnone]
      rfl
    · -- a later operation resets the object again, so this one has not retired the stream
      have hkept : ¬ (c.advance m).1.At id .retired := by
        intro hret
        have hone := length_resetting_le c id m
        rw [resets_of_retired hd hf' hs' hret ms, List.length_nil] at htwo
        omega
      obtain ⟨s, reason, hfind, hr⟩ := exists_of_resetting hnow
      rcases Operation.reset?_eq_some.mp hr with hop | ⟨hop, -⟩
      · refine ⟨[], m, ms, reason, s, rfl, rfl, hop, hfind, ?_⟩
        by_contra ho
        have hat := at_after_reset hc hfind hop
        rw [if_neg ho] at hat
        exact hkept hat
      · exact absurd (at_after_cancel hc hfind hop) hkept

/-- The request object of a stream is reset once for every reset that finds the
stream registered, with its reason, and once by a cancel that finds it. A cancel
retires the stream; a reset does, unless the end of the response is known or the
error has to wait for credit, and then leaves it in the closed bucket. Nothing is
called for a retired stream. So an object is reset twice only if its stream
outlived the first reset, and that takes flow control. -/
theorem resets_one_for_one (config : Config) (draws : Draws) (ms : List Move)
    (id : StreamId) :
    let start := ofConfig config draws
    let calls := (called id (start.outputs ms).flatten).filter RequestCall.isReset
    calls = (start.resets id ms).map RequestCall.reset ∧
    (2 ≤ calls.length → config.flowControl.explicit = true ∧
      ∃ before m later reason s, ms = before ++ m :: later ∧ start.resets id before = [] ∧
        m.op = .onReset id.handle reason ∧ (start.after before).find id = some s ∧
        s.response.outlivesReset = true) ∧
    ∀ before m later s, ms = before ++ m :: later → (start.after before).find id = some s →
      let c := start.after (before ++ [m])
      (∀ reason, m.op = .onReset id.handle reason →
        c.At id (if s.response.outlivesReset then .closed else .retired)) ∧
      (m.op = .cancel id.handle → c.At id .retired) ∧
      (c.At id .retired → called id (c.outputs later).flatten = []) := by
  intro start calls
  have hreach (xs : List Move) : (start.after xs).Reachable := ⟨config, draws, xs, rfl⟩
  have hstart : start.Sound := sound_ofConfig config draws
  have hfiled : start.Filed ∧ start.Shelved := (hreach []).filed
  have hcalls : calls = (start.resets id ms).map RequestCall.reset :=
    calls_of_resets hstart hfiled.1 id ms
  refine ⟨hcalls, fun htwo => ?_, fun before m later s _ hs => ?_⟩
  · rw [hcalls, List.length_map] at htwo
    obtain ⟨before, m, later, reason, s, hms, hnone, hop, hs, ho⟩ :=
      exists_outlived hstart hfiled.1 hfiled.2 htwo
    have hfits := fits_of_find (hreach before).sound hs
    have hmode : s.response.explicit = config.flowControl.explicit :=
      hfits.mode.trans (explicit_after hstart before)
    refine ⟨?_, before, m, later, reason, s, hms, hnone, hop, hs, ho⟩
    rw [← hmode]
    exact hfits.balanced.explicit_of_outlives ho
  · intro c
    have hb := (hreach before).sound
    have hc : c = ((start.after before).advance m).1 := after_append start before [m]
    obtain ⟨hf, hshelved⟩ := (hreach (before ++ [m])).filed
    refine ⟨fun reason hop => ?_, fun hop => ?_, fun hret => ?_⟩
    · rw [hc]
      exact at_after_reset hb hs hop
    · rw [hc]
      exact at_after_cancel hb hs hop
    · exact called_of_retired (hreach _).sound hf hshelved hret later

/-- Two resets wait for credit before a cancel ends the stream; without flow
control the first ends it. -/
theorem resets_one_for_one_held :
    let id : StreamId := ⟨⟨1⟩, 0⟩
    let ms := [Operation.start ⟨1⟩, .onHeaders ⟨1⟩ ⟨[(":status", "200")]⟩ false,
      .onReset ⟨1⟩ .connectionFailure, .onReset ⟨1⟩ .overflow, .cancel ⟨1⟩,
      .onReset ⟨1⟩ .localReset].map (Move.mk · .generic)
    let start := ofConfig { flowControl := { explicit := true } } {}
    let plain := ofConfig {} {}
    (called id (start.outputs ms).flatten).filter RequestCall.isReset =
        [.reset .connectionFailure, .reset .overflow, .reset .remoteReset] ∧
      (∃ before m later reason s, ms = before ++ m :: later ∧ start.resets id before = [] ∧
        m.op = .onReset ⟨1⟩ reason ∧ (start.after before).find id = some s ∧
        s.response.outlivesReset = true) ∧
      (start.after (ms.take 3)).At id .closed ∧ (start.after (ms.take 5)).At id .retired ∧
      called id ((start.after (ms.take 5)).outputs (ms.drop 5)).flatten = [] ∧
      (called id (plain.outputs ms).flatten).filter RequestCall.isReset =
        [.reset .connectionFailure] ∧
      (plain.after (ms.take 3)).At id .retired := by
  intro id ms start plain
  obtain ⟨-, htwice, hmoves⟩ :=
    resets_one_for_one { flowControl := { explicit := true } } {} ms id
  obtain ⟨-, -, hplain⟩ := resets_one_for_one {} {} ms id
  have hcalls : (called id (start.outputs ms).flatten).filter RequestCall.isReset =
      [.reset .connectionFailure, .reset .overflow, .reset .remoteReset] := by decide
  -- the first reset of each run, and the cancel of the first
  have hheld : ((start.after (ms.take 2)).find id).map (·.response.outlivesReset) = some true := by
    decide
  obtain ⟨s, hs, hs'⟩ := Option.map_eq_some_iff.mp hheld
  obtain ⟨t, ht⟩ := Option.isSome_iff_exists.mp
    (show ((start.after (ms.take 4)).find id).isSome by decide)
  have hended : ((plain.after (ms.take 2)).find id).map (·.response.outlivesReset) = some false := by
    decide
  obtain ⟨u, hu, hu'⟩ := Option.map_eq_some_iff.mp hended
  have hclosed := (hmoves (ms.take 2) _ (ms.drop 3) s rfl hs).1 .connectionFailure rfl
  have hplain' := (hplain (ms.take 2) _ (ms.drop 3) u rfl hu).1 .connectionFailure rfl
  obtain ⟨-, hcancel, hsilent⟩ := hmoves (ms.take 4) _ (ms.drop 5) t rfl ht
  rw [hs'] at hclosed
  rw [hu'] at hplain'
  exact ⟨hcalls, (htwice (by rw [hcalls]; decide)).2, hclosed, hcancel rfl, hsilent (hcancel rfl),
    by decide, hplain'⟩

/-- A reset that waits for credit and a cancel are two resets of one request
object. -/
theorem not_reset_once :
    ¬ ∀ (config : Config) (draws : Draws) (ms : List Move) (id : StreamId),
      ((called id ((ofConfig config draws).outputs ms).flatten).filter
        RequestCall.isReset).length ≤ 1 := by
  intro honce
  have htwo := honce { flowControl := { explicit := true } } {}
    ([Operation.start ⟨1⟩, .onHeaders ⟨1⟩ ⟨[(":status", "200")]⟩ false,
      .onReset ⟨1⟩ .connectionFailure, .cancel ⟨1⟩].map (Move.mk · .generic)) ⟨⟨1⟩, 0⟩
  exact absurd htwo (by decide)

end Client
end HttpExchange
