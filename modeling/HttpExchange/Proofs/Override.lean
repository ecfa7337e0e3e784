/-
# Errors that do not have the last word

A stream has an error recorded once a marked header block has arrived for it, or
a reset before the end of its response. Two things, and no others, complete such
a stream all the same: a header block without the marker that carries the end,
and, in explicit mode, a grant that takes in all the data that waits once the
end has arrived (`Client.Overridden`). The second one ranks the end above the
error that was put off for that very grant.

A stream that is overridden counts as a success if its last status was one; any
other ends in `error` or `cancel` and never counts.

Key definition: `Client.Overridden`.
Key theorem: `Client.complete_of_recorded_error_iff`.
-/
import HttpExchange.Proofs.Course
import HttpExchange.Proofs.Ending
import HttpExchange.Proofs.History

namespace HttpExchange

/-- A log that has ended holds one of the three last events. -/
theorem EndedLog.mem {turns : List (List Event)} (h : EndedLog turns) :
    .complete ∈ turns.flatten ∨ .cancel ∈ turns.flatten ∨ ∃ e, .error e ∈ turns.flatten := by
  obtain ⟨before, first, ending, later, -, hend, -⟩ := h
  cases hend with
  | completed _ => exact .inl (by simp)
  | failed e => exact .inr (.inr ⟨e, by simp⟩)
  | cancelled => exact .inr (.inl (by simp))

namespace Client

/-- The operation completes the stream, for which the parts `ps` have arrived,
although they record an error; it counts as a success or not. -/
inductive Overridden (c : Client) (id : StreamId) (ps : List ResponsePart) :
    Operation → Bool → Prop
  | headers {block : Headers} : c.Live id → StreamError.ofHeaders? block = none →
      Overridden c id ps (.onHeaders id.handle block true) block.succeeds
  | grant {s : Stream} {credit : Nat} : c.find id = some s → c.explicit = true → 0 < credit →
      (∃ p ∈ ps, p.ends) → s.response.waiting.length ≤ credit →
      Overridden c id ps (.resume id.handle credit) (succeeding ps)

/-! ### What a registered stream has heard -/

theorem heard_after {c : Client} (hc : c.Sound) {id : StreamId} (hnone : c.find id = none)
    {ms : List Move} {s : Stream} (hs : (c.after ms).find id = some s) :
    s.response.Heard (c.arrivals id ms) :=
  invariant_of_started hc (P := fun r ps _ => r.Heard ps) (fun _ _ => Response.heard_new _ _)
    (fun hb hp hf => Response.heard_act hp hb hf) hnone hs

/-! ### One move -/

section Move

variable {c : Client} {id : StreamId} {ps : List ResponsePart} {s : Stream}

/-- What overrides an error is an act on the stream itself. -/
theorem Overridden.exists_act {op : Operation} {success : Bool}
    (ho : Overridden c id ps op success) :
    op.handle? = some id.handle ∧ op ≠ .cancel id.handle ∧ ∃ a, op.act? c.explicit = some a := by
  cases ho with
  | headers _ _ => exact ⟨rfl, by simp, _, rfl⟩
  | @grant _ credit _ hx hc _ _ =>
    refine ⟨rfl, by simp, .grant credit, ?_⟩
    have : credit ≠ 0 := by omega
    simp [Operation.act?, hx, this]

theorem Overridden.registered (hc : c.Sound) {op : Operation} {success : Bool}
    (ho : Overridden c id ps op success) : ∃ s, c.find id = some s := by
  cases ho with
  | headers hl _ => exact Option.isSome_iff_exists.mp ((live_iff hc id).mp hl)
  | grant hs _ _ _ _ => exact ⟨_, hs⟩

/-- On a stream with an error recorded, the acts that complete it are those that
override the error. -/
theorem completed_iff_overridden (hc : c.Sound) (hs : c.find id = some s)
    (hp : s.response.Heard ps) (he : RecordsError ps) {op : Operation} {a : Act}
    (hop : op.handle? = some id.handle) (ha : op.act? c.explicit = some a) (success : Bool) :
    (s.response.act a).disposition = .completed success ↔ Overridden c id ps op success := by
  have hlive : c.Live id := (live_iff hc id).mpr (by simp [hs])
  have hends : s.response.endReceived = true ↔ ∃ p ∈ ps, p.ends := by
    rw [hp.ended, List.any_eq_true]
  rw [Response.completes_iff_overrides (fits_of_find hc hs).balanced (hp.error.mpr he)]
  constructor
  · rintro (hm | ⟨hend, hl⟩)
    · cases op <;> simp [Operation.act?] at ha
      obtain ⟨rfl, rfl⟩ := ha
      cases hop
      exact .headers hlive hm
    · cases op <;> simp [Operation.act?] at ha
      obtain ⟨⟨hx, hpos⟩, rfl⟩ := ha
      cases hop
      exact hp.success ▸ .grant hs hx (by omega) (hends.mp hend) hl
  · rintro (⟨_, hm⟩ | ⟨hs', hx, hpos, hend, hl⟩)
    · cases ha
      exact .headers hm
    · obtain rfl := Option.some.inj (hs.symm.trans hs')
      rename_i credit
      obtain rfl : .grant credit = a := by
        simpa [Operation.act?, hx, Nat.pos_iff_ne_zero.mp hpos] using ha
      exact hp.success ▸ .grant (hends.mpr hend) hl

theorem told_complete_iff (hc : c.Sound) (hs : c.find id = some s) (hp : s.response.Heard ps)
    (he : RecordsError ps) (m : Move) :
    .complete ∈ told id (c.advance m).2 ↔ ∃ success, Overridden c id ps m.op success := by
  have acted {a : Act} (hop : m.op.handle? = some id.handle) (ha : m.op.act? c.explicit = some a)
      (ht : told id (c.advance m).2 = (s.response.act a).events) :
      .complete ∈ told id (c.advance m).2 ↔ ∃ success, Overridden c id ps m.op success := by
    rw [ht, (s.response.tells_act a).complete_iff]
    exact exists_congr (completed_iff_overridden hc hs hp he hop ha)
  cases serves_advance hc hs m with
  | kept _ _ hop ht =>
    rw [ht]
    refine ⟨fun h => absurd h (by simp), fun ⟨_, ho⟩ => ?_⟩
    obtain ⟨hh, -, a, ha⟩ := ho.exists_act
    rw [(hop hh).2.1] at ha
    cases ha
  | cancelled hop _ ht _ =>
    rw [ht]
    exact ⟨fun h => absurd h (by simp), fun ⟨_, ho⟩ => absurd hop ho.exists_act.2.1⟩
  | answered hop ha _ _ _ ht _ => exact acted hop ha ht
  | retired hop ha _ _ ht _ => exact acted hop ha ht

theorem success_settle (o : Outcomes) (d : Disposition) :
    (o.settle d).success ≠ o.success ↔ d = .completed true := by
  match d with
  | .unfinished => simp [Outcomes.settle]
  | .completed true => simp [Outcomes.settle]
  | .completed false => simp [Outcomes.settle]
  | .failed => simp [Outcomes.settle]

theorem success_changes_iff (hc : c.Sound) (hs : c.find id = some s) (hp : s.response.Heard ps)
    (he : RecordsError ps) {m : Move} (hm : m.op.handle? = some id.handle) :
    (c.advance m).1.outcomes.success ≠ c.outcomes.success ↔ Overridden c id ps m.op true := by
  have acted {a : Act} (ha : m.op.act? c.explicit = some a)
      (hout : (c.advance m).1.outcomes = c.outcomes.settle (s.response.act a).disposition) :
      (c.advance m).1.outcomes.success ≠ c.outcomes.success ↔ Overridden c id ps m.op true := by
    rw [hout, success_settle]
    exact completed_iff_overridden hc hs hp he hm ha true
  cases serves_advance hc hs m with
  | kept _ _ hop _ =>
    obtain ⟨-, hact, hout⟩ := hop hm
    rw [hout]
    refine ⟨fun h => absurd rfl h, fun ho => ?_⟩
    obtain ⟨-, -, a, ha⟩ := ho.exists_act
    rw [hact] at ha
    cases ha
  | cancelled hop _ _ hout =>
    rw [hout]
    exact ⟨fun h => absurd rfl h, fun ho => absurd hop ho.exists_act.2.1⟩
  | answered _ ha _ _ _ _ hout => exact acted ha hout
  | retired _ ha _ _ _ hout => exact acted ha hout

/-- What records an error completes nothing. -/
theorem not_recording_of_completed {r : Response} {p : ResponsePart} {success : Bool}
    (hd : (r.act (.arrive p)).disposition = .completed success) :
    p.marked = false ∧ p.isReset = false := by
  match p with
  | .headers block last =>
    obtain ⟨hm, -⟩ : StreamError.ofHeaders? block = none ∧ last = true := by
      cases (r.onHeaders_overrides block last success).mp hd with
      | headers hm => exact ⟨hm, rfl⟩
    simp [ResponsePart.marked, ResponsePart.isReset, hm]
  | .data _ _ | .trailers _ => exact ⟨rfl, rfl⟩
  | .reset reason =>
    have h := r.onReset_spec
    change r.onReset.disposition = _ at hd
    generalize r.onReset = x at h hd
    cases h with
    | ignored _ => cases hd
    | failing _ => exact absurd hd (Response.fail_not_completed _ _)

/-- A stream that completes in a move was registered, is gone afterwards, and
its errors were recorded before. -/
theorem recorded_before_complete (hc : c.Sound) {m : Move}
    (hm : .complete ∈ told id (c.advance m).2) :
    (∃ s, c.find id = some s) ∧ (c.advance m).1.find id = none ∧
      ∀ ps, RecordsError (ps ++ c.arriving id m) ↔ RecordsError ps := by
  cases sees_advance hc id m with
  | absent _ _ ht _ | idle _ _ _ _ ht | cancelled _ _ _ ht _ =>
    rw [ht] at hm
    simp at hm
  | born _ _ _ _ ht =>
    rw [ht] at hm
    simp [told] at hm
  | @answered s _ a hop ha hs hf _ ht _ =>
    rw [ht, (s.response.tells_act a).complete_iff] at hm
    obtain ⟨success, hd⟩ := hm
    rw [hd] at hf
    refine ⟨⟨s, hs⟩, hf, fun ps => ?_⟩
    rw [arriving_of_part (by simp [hs]) hop]
    cases a with
    | grant _ =>
      rw [m.op.part?_eq c.explicit, ha]
      simp [Act.part?]
    | arrive p =>
      obtain ⟨hmark, hreset⟩ := not_recording_of_completed hd
      rw [m.op.part?_eq c.explicit, ha]
      show RecordsError (ps ++ [p]) ↔ _
      rw [recordsError_append]
      simp [hmark, hreset]

end Move

/-! ### Runs -/

/-- A stream for which an error was recorded completes exactly if some move
overrides the error; otherwise it ends in `error` or `cancel`. It counts as a
success exactly if the overriding move makes it one. -/
theorem complete_of_recorded_error_iff (config : Config) (draws : Draws) (ms : List Move)
    (id : StreamId) (hid : .opened id ∈ ((ofConfig config draws).outputs ms).flatten)
    (he : RecordsError ((ofConfig config draws).arrivals id ms)) :
    (.complete ∈ ((ofConfig config draws).log id ms).flatten ↔
      ∃ before m later success, ms = before ++ m :: later ∧
        RecordsError ((ofConfig config draws).arrivals id before) ∧
        Overridden ((ofConfig config draws).after before) id
          ((ofConfig config draws).arrivals id before) m.op success) ∧
    (¬ ((ofConfig config draws).after ms).Live id →
      .complete ∈ ((ofConfig config draws).log id ms).flatten ∨
      .cancel ∈ ((ofConfig config draws).log id ms).flatten ∨
      ∃ e, .error e ∈ ((ofConfig config draws).log id ms).flatten) ∧
    ∀ before m later, ms = before ++ m :: later →
      ((ofConfig config draws).after before).Live id →
      RecordsError ((ofConfig config draws).arrivals id before) →
      m.op.handle? = some id.handle →
      (((ofConfig config draws).after (before ++ [m])).outcomes.success ≠
          ((ofConfig config draws).after before).outcomes.success ↔
        Overridden ((ofConfig config draws).after before) id
          ((ofConfig config draws).arrivals id before) m.op true) := by
  have hc := sound_ofConfig config draws
  have hnone : (ofConfig config draws).find id = none := rfl
  generalize ofConfig config draws = c at hid he hc hnone ⊢
  refine ⟨?_, fun hdead => ?_, fun before m later _ hl hrec hm => ?_⟩
  · rw [mem_log]
    constructor
    · rintro ⟨before, m, later, rfl, hm⟩
      have hb := sound_after hc before
      obtain ⟨⟨s, hs⟩, hgone, hiff⟩ := recorded_before_complete hb hm
      have hsilent := (gone_of_retired hb hs hgone later).2.2
      rw [arrivals_append, arrivals_cons, hsilent, List.append_nil, hiff] at he
      obtain ⟨success, ho⟩ := (told_complete_iff hb hs (heard_after hc hnone hs) he m).mp hm
      exact ⟨before, m, later, success, rfl, he, ho⟩
    · rintro ⟨before, m, later, success, rfl, hrec, ho⟩
      have hb := sound_after hc before
      obtain ⟨s, hs⟩ := ho.registered hb
      exact ⟨before, m, later, rfl,
        (told_complete_iff hb hs (heard_after hc hnone hs) hrec m).mpr ⟨success, ho⟩⟩
  · rw [live_iff (sound_after hc ms)] at hdead
    rcases log_of_started hc hnone hid with ⟨-, hl⟩ | ⟨hended, -⟩
    · exact absurd hl hdead
    · exact hended.mem
  · have hb := sound_after hc before
    obtain ⟨s, hs⟩ := Option.isSome_iff_exists.mp ((live_iff hb id).mp hl)
    rw [after_append]
    exact success_changes_iff hb hs (heard_after hc hnone hs) hrec hm

/-- A reset is put off for want of credit, the end of the response arrives
after it, and the grant that should have brought the error completes the stream
as a success. -/
theorem complete_of_reset_then_end :
    let c := ofConfig { flowControl := { explicit := true } } {}
    let id : StreamId := ⟨⟨1⟩, 0⟩
    let before := [Operation.start ⟨1⟩, .onHeaders ⟨1⟩ ⟨[(":status", "200")]⟩ false,
      .onReset ⟨1⟩ .remoteReset, .onData ⟨1⟩ [] true].map (Move.mk · .generic)
    let m : Move := ⟨.resume ⟨1⟩ 1, .generic⟩
    (.opened id ∈ (c.outputs (before ++ [m])).flatten ∧
      RecordsError (c.arrivals id (before ++ [m]))) ∧
      .complete ∈ (c.log id (before ++ [m])).flatten ∧
      (c.after before).outcomes.success = 0 ∧ (c.after (before ++ [m])).outcomes.success = 1 := by
  intro c id before m
  have hid : .opened id ∈ (c.outputs (before ++ [m])).flatten := by decide
  have harr : c.arrivals id before = [.headers ⟨[(":status", "200")]⟩ false,
    .reset .remoteReset, .data [] true] := by decide
  have hall : c.arrivals id (before ++ [m]) = c.arrivals id before := by decide
  have hrec : RecordsError (c.arrivals id before) := by
    rw [harr]
    exact .inr ⟨[.headers _ false], .reset .remoteReset, _, rfl, rfl, by decide⟩
  have ho : Overridden (c.after before) id (c.arrivals id before) m.op true := by
    have hw : ((c.after before).find id).map (·.response.waiting) = some [] := by decide
    obtain ⟨s, hs, hw⟩ := Option.map_eq_some_iff.mp hw
    rw [show true = succeeding (c.arrivals id before) by decide]
    exact .grant hs (by decide) (by decide) ⟨.data [] true, by simp [harr], rfl⟩ (by simp [hw])
  have hrec' : RecordsError (c.arrivals id (before ++ [m])) := by rwa [hall]
  obtain ⟨hiff, -, -⟩ := complete_of_recorded_error_iff _ _ (before ++ [m]) id hid hrec'
  exact ⟨⟨hid, hrec'⟩, hiff.mpr ⟨before, m, [], true, rfl, hrec, ho⟩, by decide, by decide⟩

end Client
end HttpExchange
