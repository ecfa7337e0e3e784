/-
# A stream as a response side of its own

What is told of a stream, whether it is still registered and what it adds to the
outcomes depend on the acts on its own response side only
(`Client.exchange_of_registered`). So what a client does with a response is
settled by looking at one response side, whatever else goes on.

Key definitions: `Response.exchange`, `Client.actsOn`, `Client.tally`.
Key theorem: `Client.exchange_of_registered`.
-/
import HttpExchange.Proofs.Run

namespace HttpExchange

/-- What a response side makes of a list of acts, up to its end. -/
def Response.exchange (s : Response) : List Act → Response.Reply
  | [] => { state := s }
  | a :: as =>
    if (s.act a).disposition.isFinal then s.act a
    else ((s.act a).state.exchange as).after (s.act a).events

theorem Response.exchange_final {s : Response} {a : Act} (h : (s.act a).disposition.isFinal)
    (as : List Act) : s.exchange (a :: as) = s.act a := by
  unfold exchange
  rw [if_pos h]

theorem Response.exchange_unfinished {s : Response} {a : Act}
    (h : (s.act a).disposition.isFinal = false) (as : List Act) :
    s.exchange (a :: as) = ((s.act a).state.exchange as).after (s.act a).events := by
  rw [exchange, if_neg (by simp [h])]

/-- What every act that does not end the stream keeps, of the response side and
the acts so far, holds after acts that have not ended it. -/
theorem Response.exchange_invariant {P : Response → List Act → Prop}
    (hstep : ∀ {r : Response} {past a}, P r past → (r.act a).disposition.isFinal = false →
      P (r.act a).state (past ++ [a]))
    {s : Response} {past : List Act} (hp : P s past) {as : List Act}
    (hun : (s.exchange as).disposition.isFinal = false) :
    P (s.exchange as).state (past ++ as) := by
  induction as generalizing s past with
  | nil =>
    rw [List.append_nil]
    exact hp
  | cons a as ih =>
    by_cases hf : (s.act a).disposition.isFinal = true
    · rw [exchange_final hf, hf] at hun
      cases hun
    · rw [Bool.not_eq_true] at hf
      rw [exchange_unfinished hf] at hun ⊢
      rw [List.append_cons]
      exact ih (hstep hp hf) hun

/-- Outcomes one after the other. -/
def Outcomes.add (o p : Outcomes) : Outcomes where
  success := o.success + p.success
  failure := o.failure + p.failure
  cancel := o.cancel + p.cancel

/-- What has come to the outcomes since they were `p`. -/
def Outcomes.since (o p : Outcomes) : Outcomes where
  success := o.success - p.success
  failure := o.failure - p.failure
  cancel := o.cancel - p.cancel

@[simp] theorem Outcomes.since_self (o : Outcomes) : o.since o = {} := by simp [since]

@[simp] theorem Outcomes.empty_add (o : Outcomes) : Outcomes.add {} o = o := by simp [add]

@[simp] theorem Outcomes.add_empty (o : Outcomes) : o.add {} = o := by simp [add]

theorem Outcomes.settle_since (o : Outcomes) (d : Disposition) :
    (o.settle d).since o = Outcomes.settle {} d := by
  match d with
  | .unfinished => simp [settle, since]
  | .completed true => simp [settle, since]
  | .completed false => simp [settle, since]
  | .failed => simp [settle, since]

namespace Client

/-- The acts of a run on the streams under a handle. -/
def actsOn (h : Handle) (explicit : Bool) (ms : List Move) : List Act :=
  ms.filterMap fun m => if m.op.handle? = some h then m.op.act? explicit else none

/-- What the operations on a handle add to the outcomes in a run. -/
def tally (c : Client) (h : Handle) : List Move → Outcomes
  | [] => {}
  | m :: ms =>
    (if m.op.handle? = some h then (c.advance m).1.outcomes.since c.outcomes else {}).add
      ((c.advance m).1.tally h ms)

theorem actsOn_none {h : Handle} {explicit : Bool} {m : Move} (ms : List Move)
    (hm : m.op.handle? = some h → m.op.act? explicit = none) :
    actsOn h explicit (m :: ms) = actsOn h explicit ms := by
  unfold actsOn
  rw [List.filterMap_cons]
  split
  · rfl
  · rename_i hs
    split at hs
    · rename_i hop
      rw [hm hop] at hs
      cases hs
    · cases hs

theorem actsOn_some {h : Handle} {explicit : Bool} {m : Move} {a : Act} (ms : List Move)
    (hop : m.op.handle? = some h) (ha : m.op.act? explicit = some a) :
    actsOn h explicit (m :: ms) = a :: actsOn h explicit ms := by
  unfold actsOn
  rw [List.filterMap_cons, if_pos hop, ha]

/-- Nothing is added under a handle that is not registered. -/
theorem tally_of_unregistered {c : Client} (hc : c.Sound) {h : Handle} (he : c.entry h = none)
    {ms : List Move} (hms : ∀ m ∈ ms, m.op ≠ .start h) : c.tally h ms = {} := by
  induction ms generalizing c with
  | nil => rfl
  | cons m ms ih =>
    have hstart := hms m (by simp)
    have he' := (does_advance hc.disjoint m).stays_empty he hstart
    unfold tally
    rw [ih (sound_advance hc m) he' fun n hn => hms n (by simp [hn])]
    split
    · rename_i hop
      rw [advance_of_unregistered hc.disjoint hop hstart he]
      simp
    · rfl

/-- A registered stream goes its own way: what is told of it, whether it leaves
the registry and what it adds to the outcomes follow from the acts on its
response side. -/
theorem exchange_of_registered {c : Client} (hc : c.Sound) {id : StreamId} {s : Stream}
    (hs : c.find id = some s) {ms : List Move}
    (hms : ∀ m ∈ ms, m.op ≠ .start id.handle ∧ m.op ≠ .cancel id.handle) :
    (c.log id ms).flatten = (s.response.exchange (actsOn id.handle c.explicit ms)).events ∧
      ((c.after ms).find id = none ↔
        (s.response.exchange (actsOn id.handle c.explicit ms)).disposition.isFinal) ∧
      c.tally id.handle ms = Outcomes.settle {}
        (s.response.exchange (actsOn id.handle c.explicit ms)).disposition := by
  induction ms generalizing c s with
  | nil => exact ⟨rfl, by simp [after, hs, actsOn, Response.exchange, Disposition.isFinal], rfl⟩
  | cons m ms ih =>
    have hd := sound_advance hc m
    have hx := (does_advance hc.disjoint m).explicit
    have hlater : ∀ n ∈ ms, n.op ≠ .start id.handle ∧ n.op ≠ .cancel id.handle :=
      fun n hn => hms n (by simp [hn])
    rw [log_cons, List.flatten_cons]
    unfold tally
    cases serves_advance hc hs m with
    | cancelled hop _ _ _ => exact absurd hop (hms m (by simp)).2
    | kept hf hr hop ht =>
      obtain ⟨hlog, hfind, htally⟩ := ih hd hf hlater
      rw [hr, hx] at hlog hfind htally
      rw [actsOn_none ms fun h => (hop h).2.1, ht, hlog, htally]
      refine ⟨rfl, hfind, ?_⟩
      split
      · rename_i h
        rw [(hop h).2.2]
        simp
      · simp
    | @answered a _ hop ha hfin hf hr ht hout =>
      obtain ⟨hlog, hfind, htally⟩ := ih hd hf hlater
      rw [hr, hx] at hlog hfind htally
      have hun : Outcomes.settle {} (s.response.act a).disposition = {} := by
        revert hfin
        cases (s.response.act a).disposition <;> simp [Disposition.isFinal, Outcomes.settle]
      rw [actsOn_some ms hop ha, ht, if_pos hop, hout, Outcomes.settle_since,
        Response.exchange_unfinished hfin, hlog, htally, hun]
      exact ⟨rfl, hfind, by simp [Response.Reply.after]⟩
    | @retired a hop ha hfin hf ht hout =>
      obtain ⟨hgone, hlog, -⟩ := gone_of_retired hc hs hf ms
      have hempty : (c.advance m).1.entry id.handle = none := by
        refine entry_of_retired hc ((live_iff hc id).mpr (by simp [hs])) ?_
        rw [live_iff hd, hf]
        simp
      rw [actsOn_some ms hop ha, ht, if_pos hop, hout, Outcomes.settle_since,
        Response.exchange_final hfin, hlog, List.append_nil,
        tally_of_unregistered hd hempty fun n hn => (hlater n hn).1]
      exact ⟨rfl, ⟨fun _ => hfin, fun _ => hgone⟩, by simp⟩

end Client
end HttpExchange
