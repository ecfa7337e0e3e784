/-
# How the log of a stream ends

What is told of a stream is a run of ongoing events, and then, exactly once the
stream has left the registry, one ending told in one piece. From there on its
handle is dead until the next start: an operation on it does nothing at all.

Key definitions: `OpenLog`, `EndedLog`.
Key theorem: `Client.log_ends_with_stream`.
-/
import HttpExchange.Proofs.Run
import HttpExchange.Proofs.Reply

namespace HttpExchange

/-- Ongoing events only. -/
def OpenLog (turns : List (List Event)) : Prop := ∀ e ∈ turns.flatten, e.isOngoing

/-- Ongoing events and then one ending, all of it told in one turn. -/
inductive EndedLog : List (List Event) → Prop
  | intro (before : List (List Event)) (first ending : List Event) (later : List (List Event)) :
      (∀ e ∈ before.flatten ++ first, e.isOngoing) → Ending ending → later.flatten = [] →
      EndedLog (before ++ (first ++ ending) :: later)

theorem OpenLog.cons {turn : List Event} {turns : List (List Event)}
    (ht : ∀ e ∈ turn, e.isOngoing) (h : OpenLog turns) : OpenLog (turn :: turns) := by
  intro e he
  rw [List.flatten_cons] at he
  exact (List.mem_append.mp he).elim (ht e) (h e)

theorem EndedLog.cons {turn : List Event} {turns : List (List Event)}
    (ht : ∀ e ∈ turn, e.isOngoing) (h : EndedLog turns) : EndedLog (turn :: turns) := by
  obtain ⟨before, first, ending, later, ho, he, hl⟩ := h
  refine .intro (turn :: before) first ending later (fun e hm => ?_) he hl
  rw [List.flatten_cons, List.append_assoc] at hm
  exact (List.mem_append.mp hm).elim (ht e) (ho e)

theorem Ending.not_ongoing {l : List Event} (h : Ending l) : ∃ e ∈ l, e.isOngoing = false := by
  cases h with
  | completed _ => exact ⟨.complete, by simp, rfl⟩
  | failed e => exact ⟨.error e, by simp, rfl⟩
  | cancelled => exact ⟨.cancel, by simp, rfl⟩

/-- A log is not open and ended at once. -/
theorem EndedLog.not_open {turns : List (List Event)} (h : EndedLog turns) : ¬ OpenLog turns := by
  obtain ⟨before, first, ending, later, -, he, -⟩ := h
  obtain ⟨e, hm, hf⟩ := he.not_ongoing
  intro ho
  have := ho e (by simp [hm])
  rw [hf] at this
  cases this

/-- Silence before the first event is no part of the form of a log. -/
theorem openLog_silence {turns rest : List (List Event)} (h : turns.flatten = []) :
    OpenLog (turns ++ rest) ↔ OpenLog rest := by
  unfold OpenLog
  rw [List.flatten_append, h, List.nil_append]

theorem EndedLog.after_silence {turns rest : List (List Event)} (h : turns.flatten = [])
    (hr : EndedLog rest) : EndedLog (turns ++ rest) := by
  obtain ⟨before, first, ending, later, ho, he, hl⟩ := hr
  rw [← List.append_assoc]
  refine .intro (turns ++ before) first ending later ?_ he hl
  rw [List.flatten_append, h, List.nil_append]
  exact ho

namespace Client

/-- From a registered stream on, its log is open as long as it is registered,
and ended from there on. -/
theorem log_of_registered {c : Client} (hc : c.Sound) {id : StreamId} {s : Stream}
    (hs : c.find id = some s) (ms : List Move) :
    (OpenLog (c.log id ms) ∧ ((c.after ms).find id).isSome) ∨
      (EndedLog (c.log id ms) ∧ (c.after ms).find id = none) := by
  induction ms generalizing c s with
  | nil => exact .inl ⟨by simp [OpenLog, log, outputs], by simp [after, hs]⟩
  | cons m ms ih =>
    have hd := sound_advance hc m
    -- the stream is gone after this move, which told an ending
    have ended {first ending : List Event} (hf : (c.advance m).1.find id = none)
        (ht : told id (c.advance m).2 = first ++ ending) (hfirst : ∀ e ∈ first, e.isOngoing)
        (he : Ending ending) : EndedLog (c.log id (m :: ms)) ∧ (c.after (m :: ms)).find id = none := by
      obtain ⟨hgone, hlog, -⟩ := gone_of_retired hc hs hf ms
      rw [log_cons, ht]
      exact ⟨.intro [] first ending _ (by simpa using hfirst) he hlog, hgone⟩
    -- the stream is still there, and this move told ongoing events
    have ongoing {t : Stream} (hf : (c.advance m).1.find id = some t)
        (ht : ∀ e ∈ told id (c.advance m).2, e.isOngoing) :
        (OpenLog (c.log id (m :: ms)) ∧ ((c.after (m :: ms)).find id).isSome) ∨
          (EndedLog (c.log id (m :: ms)) ∧ (c.after (m :: ms)).find id = none) := by
      rw [log_cons]
      rcases ih hd hf with ⟨ho, hl⟩ | ⟨ho, hl⟩
      · exact .inl ⟨ho.cons ht, hl⟩
      · exact .inr ⟨ho.cons ht, hl⟩
    cases serves_advance hc hs m with
    | kept hf _ _ ht => exact ongoing hf (by simp [ht])
    | cancelled _ hf ht _ =>
      exact .inr (ended hf (show _ = [] ++ [.cancel] from ht) (by simp) .cancelled)
    | @answered a _ _ _ hfin hf _ ht _ =>
      exact ongoing hf (ht ▸ (s.response.tells_act a).unfinished_iff.mp hfin)
    | @retired a _ _ hfin hf ht _ =>
      obtain ⟨first, ending, hev, hfirst, hend⟩ := (s.response.tells_act a).ending hfin
      exact .inr (ended hf (ht.trans hev) hfirst hend)

theorem log_of_started {c : Client} (hc : c.Sound) {id : StreamId} (hnone : c.find id = none)
    {ms : List Move} (hid : .opened id ∈ (c.outputs ms).flatten) :
    (OpenLog (c.log id ms) ∧ ((c.after ms).find id).isSome) ∨
      (EndedLog (c.log id ms) ∧ (c.after ms).find id = none) := by
  obtain ⟨before, m, later, rfl, -, hborn, hsilent, -⟩ := exists_birth hc hnone hid
  rw [← List.singleton_append, ← List.append_assoc, log_append, after_append _ (before ++ [m])]
  rcases log_of_registered (sound_after hc _) hborn later with ⟨ho, hl⟩ | ⟨ho, hl⟩
  · exact .inl ⟨(openLog_silence hsilent).mpr ho, hl⟩
  · exact .inr ⟨ho.after_silence hsilent, hl⟩

/-- Whatever is done to a client, and in whatever order, the log of each stream
is open as long as the stream is registered and ended from there on. Once a move
has taken the stream out of the registry, operations on its handle do nothing at
all until the handle is started again. -/
theorem log_ends_with_stream (config : Config) (draws : Draws) (ms : List Move)
    (id : StreamId) (hid : .opened id ∈ ((ofConfig config draws).outputs ms).flatten) :
    (OpenLog ((ofConfig config draws).log id ms) ∨
      EndedLog ((ofConfig config draws).log id ms)) ∧
    (EndedLog ((ofConfig config draws).log id ms) ↔
      ¬ ((ofConfig config draws).after ms).Live id) ∧
    ∀ before m later, ms = before ++ m :: later →
      ((ofConfig config draws).after before).Live id →
      ¬ ((ofConfig config draws).after (before ++ [m])).Live id →
      (∀ n ∈ later, n.op ≠ .start id.handle) →
      ∀ n : Move, n.op.handle? = some id.handle → n.op ≠ .start id.handle →
        ((ofConfig config draws).after ms).advance n =
          ((ofConfig config draws).after ms, []) := by
  have hc := sound_ofConfig config draws
  generalize hgen : ofConfig config draws = c at hid hc ⊢
  have hnone : c.find id = none := by
    rw [← hgen]
    rfl
  have hform := log_of_started hc hnone hid
  refine ⟨hform.imp And.left And.left, ?_, fun before m later hms hl hr hlater n hn hstart => ?_⟩
  · rw [live_iff (sound_after hc ms)]
    rcases hform with ⟨ho, hl⟩ | ⟨ho, hl⟩
    · exact ⟨fun he => absurd ho he.not_open, fun h => absurd hl h⟩
    · exact ⟨fun _ => by simp [hl], fun _ => ho⟩
  · have hb := sound_after hc before
    rw [after_append] at hr
    have hempty := entry_after (sound_advance hb m) (entry_of_retired hb hl hr) hlater
    rw [hms, after_append]
    exact advance_of_unregistered (sound_after hb (m :: later)).disjoint hn hstart hempty

/-- A response that was held back, passed on piece by piece, and completed with
its trailers; the reset that comes after that finds nothing. -/
theorem log_ends_with_drained_stream :
    let c := ofConfig { flowControl := { explicit := true } } {}
    let ms := [Operation.start ⟨1⟩, .onHeaders ⟨1⟩ {} false, .onData ⟨1⟩ [1, 2, 3] false,
      .onTrailers ⟨1⟩ {}, .resume ⟨1⟩ 2, .resume ⟨1⟩ 2, .onReset ⟨1⟩ .remoteReset].map (Move.mk · .generic)
    Output.opened ⟨⟨1⟩, 0⟩ ∈ (c.outputs ms).flatten ∧
      c.log ⟨⟨1⟩, 0⟩ ms = [[], [.headers {} false], [], [], [.data [1, 2] false],
        [.data [3] false, .trailers {}, .complete], []] ∧
      EndedLog (c.log ⟨⟨1⟩, 0⟩ ms) ∧ (c.after ms).advance ⟨.cancel ⟨1⟩, .generic⟩ = (c.after ms, []) := by
  intro c ms
  have hid : Output.opened ⟨⟨1⟩, 0⟩ ∈ (c.outputs ms).flatten := by decide
  have live (k : Nat) : (c.after (ms.take k)).Live ⟨⟨1⟩, 0⟩ ↔
      ((c.after (ms.take k)).find ⟨⟨1⟩, 0⟩).isSome :=
    live_iff (sound_after (sound_ofConfig _ _) _) _
  obtain ⟨-, hiff, hdead⟩ := log_ends_with_stream _ _ ms _ hid
  refine ⟨hid, by decide, hiff.mpr (mt (live 7).mp (by decide)), ?_⟩
  exact hdead (ms.take 5) ⟨.resume ⟨1⟩ 2, .generic⟩ (ms.drop 6) rfl ((live 5).mpr (by decide))
    (mt (live 6).mp (by decide)) (by decide) ⟨.cancel ⟨1⟩, .generic⟩ rfl (by decide)

end Client
end HttpExchange
