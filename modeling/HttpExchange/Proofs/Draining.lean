/-
# Closed streams drain

A stream in the closed bucket has heard the end of its response or holds an
error that was put off, whatever came before (`Client.Owed`). Such a stream owes
its application an ending, and grants alone bring it: a grant smaller than the
data that waits gives that much of it, and the first one that takes in the rest
gives the ending too (`Response.resume_of_owing`). Without flow control nothing
is owed, and the closed bucket is empty.

Key definitions: `Response.Owing`, `Client.Owed`, `Client.GrantsOnly`,
`Client.granted`.
Key theorems: `Response.owing_act`, `Response.resume_of_owing`,
`Client.closed_streams_drain`.
-/
import HttpExchange.Proofs.Course
import HttpExchange.Proofs.Ending
import HttpExchange.Proofs.History

namespace HttpExchange
namespace Response

/-- The end of the response was heard, or an error was put off. -/
def Owing (s : Response) : Prop := s.endReceived = true ∨ s.errorDeferred = true

/-! ### What makes a stream owe its ending -/

theorem owing_onReset {s : Response} (hf : s.onReset.disposition.isFinal = false) :
    s.onReset.state.Owing := by
  have hspec := s.onReset_spec
  generalize s.onReset = r at hspec hf ⊢
  cases hspec with
  | ignored he => exact .inl he
  | failing _ =>
    rw [fail_unfinished hf]
    exact .inr rfl

/-- A grant pays a stream's debt in order: data that waits first, and the ending
with the last of it. -/
theorem resume_of_owing {s : Response} (hb : s.Balanced) (ho : s.Owing) (credit : Nat) :
    (credit < s.waiting.length ∧ (s.resume credit).events = [.data (s.waiting.take credit) false] ∧
      (s.resume credit).disposition.isFinal = false ∧
      (s.resume credit).state.waiting = s.waiting.drop credit ∧ (s.resume credit).state.Owing) ∨
    (s.waiting.length ≤ credit ∧ (s.resume credit).disposition.isFinal = true) := by
  have hspec := onResume_spec hb.unforwarded credit
  generalize s.resume credit = r at hspec ⊢
  cases hspec with
  | finished _ _ hl | trailers _ _ hl | failed _ _ _ _ hl => exact .inr ⟨hl, rfl⟩
  | partly b hlt hw => exact .inl ⟨hlt, rfl, rfl, hw, ho⟩
  | drained _ hp ht hd _ _ =>
    -- nothing is owed when a grant finds neither an end, nor trailers, nor an error
    rcases ho with he | hd'
    · simp [endPending, hb.unforwarded, ht, he] at hp
    · rw [hd] at hd'
      cases hd'

/-- A stream that owes its ending owes it until it has ended, and every act that
closes the remote side makes it owe one. -/
theorem owing_act {s : Response} (hb : s.Balanced) {a : Act} (h : s.Owing ∨ a.closes = true)
    (hf : (s.act a).disposition.isFinal = false) : (s.act a).state.Owing := by
  cases a with
  | grant credit =>
    have ho : s.Owing := h.resolve_right (by simp [Act.closes])
    rcases resume_of_owing hb ho credit with ⟨-, -, -, -, ho'⟩ | ⟨-, hfin⟩
    · exact ho'
    · rw [show (s.act (.grant credit)).disposition = (s.resume credit).disposition from rfl,
        hfin] at hf
      cases hf
  | arrive p =>
    have hended := (learns_arrive hf).ended
    rcases h with (he | hd) | hcl
    · exact .inl (by simp [hended, he])
    · exact .inr (deferred_act hb hd hf)
    · match p with
      | .headers _ last | .data _ last =>
        obtain rfl : last = true := hcl
        exact .inl (by simp [hended, ResponsePart.ends])
      | .trailers _ => exact .inl (by simp [hended, ResponsePart.ends])
      | .reset _ => exact owing_onReset hf

/-- Without flow control nothing is ever owed. -/
theorem Balanced.not_owing {s : Response} (hb : s.Balanced) (hx : s.explicit = false) :
    ¬ s.Owing := by
  have hc := hb.clear (.inl hx)
  rintro (he | hd)
  · rw [hc.unended] at he
    cases he
  · rw [hc.deferred] at hd
    cases hd

end Response

namespace Registry

variable {σ : Type}

theorem closedCount_eq_zero {r : Registry σ} (hr : r.Disjoint)
    (hl : ∀ h s, r.lookup h ≠ some (.closed, s)) : r.closedCount = 0 := by
  unfold closedCount Dict.size
  cases he : r.closed.entries with
  | nil => rfl
  | cons e _ =>
    have hc : r.closed.find? e.1 = some e.2 := by
      unfold Dict.find?
      rw [he]
      exact if_pos rfl
    exact absurd ((lookup_closed hr).mpr hc) (hl e.1 e.2)

end Registry

namespace Client

open Registry (Bucket)

/-! ### The closed bucket -/

/-- Every stream in the closed bucket owes its ending. -/
def Owed (c : Client) : Prop :=
  ∀ h s, c.entry h = some (.closed, s) → s.response.Owing

/-- What is owed stays owed when the entry under one handle is replaced by one
that owes its ending if it is closed. -/
theorem Owed.puts {c c' d : Client} (ho : c.Owed) {h : Handle} {e : Option (Bucket × Stream)}
    (hd : Puts c' h e d) (hs : c'.streams = c.streams)
    (he : ∀ {s}, e = some (.closed, s) → s.response.Owing) : d.Owed := by
  intro k s hk
  rw [hd.entry] at hk
  split at hk
  · exact he hk
  · unfold entry at hk
    rw [hs] at hk
    exact ho k s hk

theorem owed_advance {c : Client} (hc : c.Sound) (ho : c.Owed) (m : Move) :
    (c.advance m).1.Owed := by
  have hd := does_advance hc.disjoint m
  generalize c.advance m = r at hd ⊢
  obtain ⟨d, outs⟩ := r
  dsimp only at hd ⊢
  generalize m.op = op at hd
  cases hd with
  | absent _ _ _ | taken _ | unsent _ _ _ | ungranted _ | swept => exact ho
  | started _ hp => exact ho.puts hp rfl fun he => by cases he
  | sent _ _ _ _ _ _ hp => exact ho.puts hp rfl fun he => by cases he
  | cancelled _ hp => exact ho.puts hp rfl fun he => by cases he
  | @answered _ h b s a _ _ _ hr hp =>
    refine ho.puts hp rfl fun he => ?_
    unfold entryAfter at he
    split at he
    · cases he
    · rename_i hun
      rw [Option.some.injEq, Prod.mk.injEq] at he
      obtain ⟨hb, rfl⟩ := he
      have hdebt : s.response.Owing ∨ a.closes = true := by
        by_cases hcl : a.closes = true
        · exact .inr hcl
        · rw [if_neg hcl] at hb
          exact .inl (ho h s (hb ▸ hr))
      exact Response.owing_act (hc.fits hr).balanced hdebt (by simpa using hun)

theorem owed_after {c : Client} (hc : c.Sound) (ho : c.Owed) (ms : List Move) :
    (c.after ms).Owed := by
  induction ms generalizing c with
  | nil => exact ho
  | cons m ms ih => exact ih (sound_advance hc m) (owed_advance hc ho m)

theorem Reachable.owed {c : Client} (hc : c.Reachable) : c.Owed := by
  obtain ⟨config, draws, ms, rfl⟩ := hc
  exact owed_after (sound_ofConfig config draws) (fun _ _ he => by cases he) ms

/-- Without flow control the closed bucket is empty. -/
theorem Reachable.closedCount {c : Client} (hc : c.Reachable) (hx : c.explicit = false) :
    c.streams.closedCount = 0 := by
  refine Registry.closedCount_eq_zero hc.sound.disjoint fun h s he => ?_
  have hf := hc.sound.fits he
  exact hf.balanced.not_owing (hf.mode.trans hx) (hc.owed h s he)

/-! ### Grants to one stream -/

/-- The run does nothing to the stream under a handle but grant it credit. -/
def GrantsOnly (h : Handle) (ms : List Move) : Prop :=
  ∀ m ∈ ms, m.op.handle? = some h → ∃ credit, 0 < credit ∧ m.op = .resume h credit

/-- The credit that an operation grants under a handle. -/
def grantedBy (h : Handle) : Operation → Nat
  | .resume k credit => if k = h then credit else 0
  | _ => 0

/-- The credit that a run grants under a handle. -/
def granted (h : Handle) : List Move → Nat
  | [] => 0
  | m :: ms => grantedBy h m.op + granted h ms

theorem granted_cons (h : Handle) (m : Move) (ms : List Move) :
    granted h (m :: ms) = grantedBy h m.op + granted h ms := rfl

theorem grantedBy_elsewhere {h : Handle} {op : Operation} (hop : op.handle? ≠ some h) :
    grantedBy h op = 0 := by
  cases op with
  | resume k credit => exact if_neg fun hk => hop (congrArg some hk)
  | _ => rfl

section Stream

variable {c : Client} {id : StreamId} {s : Stream} {m : Move}

/-- What a grant, or an operation elsewhere, does to a stream that owes its ending. -/
inductive Drains (c : Client) (id : StreamId) (s : Stream) (m : Move) : Prop
  | kept {t : Stream} : m.op.handle? ≠ some id.handle → (c.advance m).1.find id = some t →
      t.response = s.response → Drains c id s m
  | partly {t : Stream} {credit : Nat} : m.op = .resume id.handle credit → 0 < credit →
      credit < s.response.waiting.length → (c.advance m).1.find id = some t →
      told id (c.advance m).2 = [.data (s.response.waiting.take credit) false] →
      t.response.waiting = s.response.waiting.drop credit → t.response.Owing → Drains c id s m
  | ended : (c.advance m).1.find id = none → Drains c id s m

theorem drains_advance (hc : c.Sound) (hx : c.explicit = true) (hs : c.find id = some s)
    (ho : s.response.Owing)
    (hm : m.op.handle? = some id.handle → ∃ credit, 0 < credit ∧ m.op = .resume id.handle credit) :
    Drains c id s m := by
  have acts {credit : Nat} (hpos : 0 < credit) :
      (Operation.resume id.handle credit).act? c.explicit = some (.grant credit) := by
    simp [Operation.act?, hx, Nat.pos_iff_ne_zero.mp hpos]
  cases serves_advance hc hs m with
  | kept hf hr hop _ =>
    refine .kept (fun hh => ?_) hf hr
    obtain ⟨credit, hpos, hres⟩ := hm hh
    have hnone := (hop hh).2.1
    rw [hres, acts hpos] at hnone
    cases hnone
  | cancelled hop _ _ _ =>
    obtain ⟨credit, -, hres⟩ := hm (by rw [hop]; rfl)
    rw [hop] at hres
    cases hres
  | retired _ _ _ hf _ _ => exact .ended hf
  | @answered a t hh ha hfin hf hr ht _ =>
    obtain ⟨credit, hpos, hres⟩ := hm hh
    rw [hres, acts hpos, Option.some.injEq] at ha
    subst ha
    rcases Response.resume_of_owing (fits_of_find hc hs).balanced ho credit with
      ⟨hlt, hev, -, hw, ho'⟩ | ⟨-, hfin'⟩
    · exact .partly hres hpos hlt hf (ht.trans hev) (hr ▸ hw) (hr ▸ ho')
    · rw [show (s.response.act (.grant credit)).disposition =
        (s.response.resume credit).disposition from rfl, hfin'] at hfin
      cases hfin

/-- Grants that add up to the data that waits, and to something at all, end a
stream that owes its ending. -/
theorem ends_of_owing (hc : c.Sound) (hx : c.explicit = true) (hs : c.find id = some s)
    (ho : s.response.Owing) {ms : List Move} (hg : GrantsOnly id.handle ms)
    (hsum : max s.response.waiting.length 1 ≤ granted id.handle ms) :
    (c.after ms).find id = none := by
  induction ms generalizing c s with
  | nil =>
    have h0 : granted id.handle [] = 0 := rfl
    omega
  | cons m ms ih =>
    have hd := sound_advance hc m
    have hx' := (does_advance hc.disjoint m).explicit.trans hx
    have hg' : GrantsOnly id.handle ms := fun n hn => hg n (List.mem_cons_of_mem _ hn)
    rw [granted_cons] at hsum
    cases drains_advance hc hx hs ho (hg m (by simp)) with
    | kept hop hf hr =>
      rw [grantedBy_elsewhere hop, Nat.zero_add] at hsum
      exact ih hd hx' hf (hr ▸ ho) hg' (hr ▸ hsum)
    | @partly _ credit hop _ hlt hf _ hw ho' =>
      have hcredit : grantedBy id.handle m.op = credit := by rw [hop]; exact if_pos rfl
      refine ih hd hx' hf ho' hg' ?_
      rw [hw, List.length_drop]
      omega
    | ended hf => exact (gone_of_retired hc hs hf ms).1

/-- Whatever is done, a stream that owes its ending owes it as long as it is registered. -/
theorem owing_after (hc : c.Sound) (hs : c.find id = some s) (ho : s.response.Owing)
    {ms : List Move} {t : Stream} (ht : (c.after ms).find id = some t) : t.response.Owing :=
  kept_after hc (P := Response.Owing) (fun hb ho hf => Response.owing_act hb (.inl ho) hf) hs ho ht

end Stream

/-- A registered stream was registered before its last operation as well. -/
theorem find_before {c : Client} (hc : c.Sound) {id : StreamId} {s : Stream}
    (hs : c.find id = some s) {before : List Move} {m : Move}
    (hl : (c.after (before ++ [m])).Live id) : ∃ t, (c.after before).find id = some t := by
  cases hf : (c.after before).find id with
  | some t => exact ⟨t, rfl⟩
  | none =>
    have hlt := Nat.lt_of_lt_of_le (serial_lt_of_find hc hs) (nextSerial_after hc before)
    have hgone := (gone_after (sound_after hc before) hf hlt [m]).1
    rw [live_iff (sound_after hc _), after_append, hgone] at hl
    cases hl

/-- No stream is stuck. With flow control, a stream that the remote side has
closed ends under any grants that add up to the data that waits and to one byte
at least, whatever is done to other streams in between; and each grant that does
not end it gives some of the data. Without flow control the closed bucket is
empty. -/
theorem closed_streams_drain {c : Client} (hc : c.Reachable) :
    (c.explicit = true → ∀ {h : Handle} {s : Stream}, c.entry h = some (.closed, s) →
      ∀ {ms : List Move}, GrantsOnly h ms → max s.response.waiting.length 1 ≤ granted h ms →
        EndedLog (c.log s.id ms) ∧ ¬ (c.after ms).Live s.id ∧
        ∀ before m later, ms = before ++ m :: later → m.op.handle? = some h →
          (c.after (before ++ [m])).Live s.id →
          ∃ t t' chunk, (c.after before).find s.id = some t ∧
            (c.after (before ++ [m])).find s.id = some t' ∧
            told s.id ((c.after before).advance m).2 = [.data chunk false] ∧ chunk ≠ [] ∧
            t.response.waiting = chunk ++ t'.response.waiting ∧
            t'.response.waiting.length < t.response.waiting.length) ∧
    (c.explicit = false → c.streams.closedCount = 0) := by
  refine ⟨fun hx h s he ms hg hsum => ?_, hc.closedCount⟩
  obtain rfl : s.id.handle = h := (hc.sound.fits he).handle
  have hs : c.find s.id = some s := find_eq_some.mpr ⟨rfl, _, he⟩
  have ho := hc.owed _ s he
  have hgone := ends_of_owing hc.sound hx hs ho hg hsum
  refine ⟨?_, ?_, fun before m later hms hop hl => ?_⟩
  · rcases log_of_registered hc.sound hs ms with ⟨-, hl⟩ | ⟨hended, -⟩
    · rw [hgone] at hl
      cases hl
    · exact hended
  · rw [live_iff (sound_after hc.sound ms), hgone]
    simp
  · subst hms
    have hb := sound_after hc.sound before
    obtain ⟨t, ht⟩ := find_before hc.sound hs hl
    have hxb := (explicit_after hc.sound before).trans hx
    have hot := owing_after hc.sound hs ho ht
    rw [live_iff (sound_after hc.sound _), after_append] at hl
    cases drains_advance hb hxb ht hot (hg m (by simp)) with
    | kept hop' _ _ => exact absurd hop hop'
    | @partly t' credit _ hpos hlt hf hev hw _ =>
      have hchunk : (t.response.waiting.take credit).length = credit :=
        List.length_take_of_le (Nat.le_of_lt hlt)
      refine ⟨t, t', _, ht, ?_, hev, ?_, ?_, ?_⟩
      · rw [after_append]
        exact hf
      · exact List.ne_nil_of_length_pos (by omega)
      · rw [hw, List.take_append_drop]
      · rw [hw, List.length_drop]
        omega
    | ended hf =>
      rw [show ((c.after before).after [m]).find s.id = _ from hf] at hl
      cases hl

/-- Four bytes wait when the stream is reset. Two grants with a cancel elsewhere
between them bring the data and then the error. -/
theorem closed_stream_drains_after_reset :
    let c := (ofConfig { flowControl := { explicit := true } } {}).after
      ([Operation.start ⟨1⟩, .start ⟨2⟩, .onHeaders ⟨1⟩ ⟨[(":status", "200")]⟩ false,
        .onData ⟨1⟩ [1, 2, 3, 4] false, .onReset ⟨1⟩ .overflow].map (Move.mk · .generic))
    let ms := [Operation.resume ⟨1⟩ 3, .cancel ⟨2⟩, .resume ⟨1⟩ 1].map (Move.mk · .generic)
    ((c.entry ⟨1⟩).map (·.1) = some .closed ∧ GrantsOnly ⟨1⟩ ms ∧ granted ⟨1⟩ ms = 4) ∧
      c.log ⟨⟨1⟩, 0⟩ ms = [[.data [1, 2, 3] false], [], [.data [4] false, .error .reset]] ∧
      EndedLog (c.log ⟨⟨1⟩, 0⟩ ms) ∧ ¬ (c.after ms).Live ⟨⟨1⟩, 0⟩ := by
  intro c ms
  have hc : c.Reachable := ⟨_, _, _, rfl⟩
  have he : (c.entry ⟨1⟩).map (fun e => (e.1, e.2.id, e.2.response.waiting)) =
      some (.closed, ⟨⟨1⟩, 0⟩, [1, 2, 3, 4]) := by decide
  obtain ⟨⟨b, s⟩, hs, hb⟩ := Option.map_eq_some_iff.mp he
  obtain ⟨rfl, hid, hw⟩ : b = .closed ∧ s.id = ⟨⟨1⟩, 0⟩ ∧ s.response.waiting = [1, 2, 3, 4] := by
    simpa using hb
  have hg : GrantsOnly ⟨1⟩ ms := by
    intro m hm hop
    simp only [ms, List.map_cons, List.map_nil, List.mem_cons, List.not_mem_nil, or_false] at hm
    rcases hm with rfl | rfl | rfl
    · exact ⟨3, by decide, rfl⟩
    · cases hop
    · exact ⟨1, by decide, rfl⟩
  obtain ⟨hended, hgone, -⟩ := (closed_streams_drain hc).1 (by decide) hs hg (by rw [hw]; decide)
  rw [hid] at hended hgone
  exact ⟨⟨by rw [hs]; rfl, hg, by decide⟩, by decide, hended, hgone⟩

end Client
end HttpExchange
