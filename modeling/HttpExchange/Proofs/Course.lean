/-
# The course of a stream

What happens at one stream of a client, in order: the acts on its response side,
grants among them, and what it is told of them (`Client.chronicle`). The log and
the parts that arrived are its two halves, seen apart.

A chronicle is what a response side does when it is led through acts one by one
(`Response.Course`); it is over with a last act that ends the stream, or with a
cancel (`Response.Ends`). Every stream that was started is at one of the two
(`Client.fared_after`), so what holds of chronicles is proved by induction on a
course, with no client in sight.

Key definitions: `Happening`, `Client.chronicle`, `Response.Course`,
`Response.Ends`, `Client.newborn`, `Client.Fared`.
Key theorems: `Client.fared_after`, `Client.events_chronicle`,
`Client.parts_chronicle`.
-/
import HttpExchange.Proofs.Run

namespace HttpExchange

/-- What happens at a stream. -/
inductive Happening
  /-- An act on its response side. -/
  | act (a : Act)
  /-- Its application is told something. -/
  | told (e : Event)
  deriving DecidableEq, Repr

namespace Happening

/-- The part that arrives. -/
def part? : Happening → Option ResponsePart
  | act a => a.part?
  | told _ => none

/-- The event that is told. -/
def event? : Happening → Option Event
  | act _ => none
  | told e => some e

/-- The credit that is granted. -/
def grant? : Happening → Option Nat
  | act (.grant credit) => some credit
  | _ => none

/-- The parts that arrived in a chronicle. -/
def parts (h : List Happening) : List ResponsePart := h.filterMap part?

/-- The events told in a chronicle. -/
def events (h : List Happening) : List Event := h.filterMap event?

/-- The grants made in a chronicle. -/
def grants (h : List Happening) : List Nat := h.filterMap grant?

@[simp] theorem parts_append (h g : List Happening) : parts (h ++ g) = parts h ++ parts g :=
  List.filterMap_append ..

@[simp] theorem events_append (h g : List Happening) : events (h ++ g) = events h ++ events g :=
  List.filterMap_append ..

@[simp] theorem grants_append (h g : List Happening) : grants (h ++ g) = grants h ++ grants g :=
  List.filterMap_append ..

@[simp] theorem parts_map_told (es : List Event) : parts (es.map told) = [] := by
  induction es with
  | nil => rfl
  | cons _ _ ih => exact ih

@[simp] theorem events_map_told (es : List Event) : events (es.map told) = es := by
  induction es with
  | nil => rfl
  | cons e es ih => exact congrArg (e :: ·) ih

end Happening

namespace Response

/-- An act that reaches a response side: grants do in explicit mode only, and
have to be positive. -/
def Admits (s : Response) : Act → Prop
  | .arrive _ => True
  | .grant credit => s.explicit = true ∧ 0 < credit

/-- An act, and what it makes a response side tell. -/
def happenings (s : Response) (a : Act) : List Happening := .act a :: (s.act a).events.map .told

theorem parts_happenings (s : Response) (a : Act) :
    Happening.parts (s.happenings a) = a.part?.toList := by
  have htold : Happening.parts ((s.act a).events.map .told) = [] := Happening.parts_map_told _
  cases a with
  | arrive p => exact congrArg (p :: ·) htold
  | grant _ => exact htold

theorem events_happenings (s : Response) (a : Act) :
    Happening.events (s.happenings a) = (s.act a).events :=
  Happening.events_map_told _

/-- The course of a response side from `s`, which has not ended yet. -/
inductive Course (s : Response) : List Happening → Response → Prop
  | start : Course s [] s
  | act {h : List Happening} {t : Response} {a : Act} : Course s h t → t.Admits a →
      (t.act a).disposition.isFinal = false → Course s (h ++ t.happenings a) (t.act a).state

/-- What can end the course of a response side: an act on it, or a cancel. -/
inductive Ends (s : Response) : List Happening → Prop
  | acted {h : List Happening} {t : Response} {a : Act} : Course s h t → t.Admits a →
      (t.act a).disposition.isFinal = true → Ends s (h ++ t.happenings a)
  | cancelled {h : List Happening} {t : Response} : Course s h t → Ends s (h ++ [.told .cancel])

section Course

variable {s t : Response} {h : List Happening}

theorem Course.explicit (hc : Course s h t) : t.explicit = s.explicit := by
  induction hc with
  | start => rfl
  | act _ _ _ ih => exact (explicit_act _ _).trans ih

theorem Admits.mode {a : Act} (ha : s.Admits a) : s.explicit = true ∨ ∃ p, a = .arrive p := by
  cases a with
  | arrive p => exact .inr ⟨p, rfl⟩
  | grant _ => exact .inl ha.1

theorem Course.balanced (hc : Course s h t) (hs : s.Balanced) : t.Balanced := by
  induction hc with
  | start => exact hs
  | act _ ha hf ih => exact balanced_act ih ha.mode hf

/-- What holds of a response side, the parts that arrived and what was told, and
is kept by every act that does not end the stream, holds along a course. -/
theorem Course.invariant {P : Response → List ResponsePart → List Event → Prop}
    (hstep : ∀ {r : Response} {ps es a}, r.Balanced → P r ps es →
      (r.act a).disposition.isFinal = false →
      P (r.act a).state (ps ++ a.part?.toList) (es ++ (r.act a).events))
    (hc : Course s h t) (hs : s.Balanced) (hp : P s [] []) :
    P t (Happening.parts h) (Happening.events h) := by
  induction hc with
  | start => exact hp
  | act hc _ hf ih =>
    rw [Happening.parts_append, parts_happenings, Happening.events_append, events_happenings]
    exact hstep (hc.balanced hs) ih hf

/-- Whatever is told along a course is told by an act on a balanced response
side. -/
theorem Course.told (hc : Course s h t) (hs : s.Balanced) {e : Event}
    (he : e ∈ Happening.events h) : ∃ r : Response, ∃ a, r.Balanced ∧ r.Admits a ∧ e ∈ (r.act a).events := by
  induction hc with
  | start => cases he
  | @act h t a hc ha _ ih =>
    rw [Happening.events_append, events_happenings] at he
    rcases List.mem_append.mp he with he | he
    · exact ih he
    · exact ⟨t, a, hc.balanced hs, ha, he⟩

theorem Ends.told (hc : Ends s h) (hs : s.Balanced) {e : Event} (he : e ∈ Happening.events h) :
    e = .cancel ∨ ∃ r : Response, ∃ a, r.Balanced ∧ r.Admits a ∧ e ∈ (r.act a).events := by
  cases hc with
  | @acted h t a hc ha _ =>
    rw [Happening.events_append, events_happenings] at he
    rcases List.mem_append.mp he with he | he
    · exact .inr (hc.told hs he)
    · exact .inr ⟨t, a, hc.balanced hs, ha, he⟩
  | @cancelled h t hc =>
    rw [Happening.events_append] at he
    rcases List.mem_append.mp he with he | he
    · exact .inr (hc.told hs he)
    · exact .inl (List.mem_singleton.mp he)

end Course

end Response

namespace Client

/-- What happens at a stream in a move. -/
def noted (c : Client) (id : StreamId) (m : Move) : List Happening :=
  (if (c.find id).isSome ∧ m.op.handle? = some id.handle then
    (m.op.act? c.explicit).toList.map .act else []) ++ (told id (c.advance m).2).map .told

/-- What happens at a stream in a run. -/
def chronicle (c : Client) (id : StreamId) : List Move → List Happening
  | [] => []
  | m :: ms => c.noted id m ++ (c.advance m).1.chronicle id ms

theorem chronicle_cons (c : Client) (id : StreamId) (m : Move) (ms : List Move) :
    c.chronicle id (m :: ms) = c.noted id m ++ (c.advance m).1.chronicle id ms := rfl

/-! ### The two halves -/

theorem events_noted (c : Client) (id : StreamId) (m : Move) :
    Happening.events (c.noted id m) = told id (c.advance m).2 := by
  have hacts (as : List Act) : Happening.events (as.map .act) = [] := by
    induction as with
    | nil => rfl
    | cons _ _ ih => exact ih
  unfold noted
  rw [Happening.events_append, Happening.events_map_told]
  split
  · rw [hacts, List.nil_append]
  · rfl

theorem parts_noted (c : Client) (id : StreamId) (m : Move) :
    Happening.parts (c.noted id m) = c.arriving id m := by
  unfold noted arriving
  rw [Happening.parts_append, Happening.parts_map_told, List.append_nil]
  split
  · rw [m.op.part?_eq c.explicit]
    cases m.op.act? c.explicit with
    | none => rfl
    | some a => cases a <;> rfl
  · rfl

/-- The events of a chronicle are the log. -/
theorem events_chronicle (c : Client) (id : StreamId) (ms : List Move) :
    Happening.events (c.chronicle id ms) = (c.log id ms).flatten := by
  induction ms generalizing c with
  | nil => rfl
  | cons m ms ih =>
    rw [chronicle_cons, Happening.events_append, events_noted, ih, log_cons, List.flatten_cons]

/-- The parts of a chronicle are those that arrived. -/
theorem parts_chronicle (c : Client) (id : StreamId) (ms : List Move) :
    Happening.parts (c.chronicle id ms) = c.arrivals id ms := by
  induction ms generalizing c with
  | nil => rfl
  | cons m ms ih =>
    rw [chronicle_cons, Happening.parts_append, parts_noted, ih, arrivals_cons]

/-! ### One move -/

theorem admits_of_act? {op : Operation} {s : Response} {a : Act}
    (ha : op.act? s.explicit = some a) : s.Admits a := by
  cases a with
  | arrive _ => trivial
  | grant credit =>
    cases op <;> simp [Operation.act?] at ha
    obtain ⟨⟨hx, hpos⟩, rfl⟩ := ha
    exact ⟨hx, Nat.pos_of_ne_zero hpos⟩

theorem noted_absent {c : Client} {id : StreamId} {m : Move} (hf : c.find id = none)
    (ht : told id (c.advance m).2 = []) : c.noted id m = [] := by
  unfold noted
  rw [ht, if_neg (by simp [hf])]
  rfl

/-- What no act on the stream does is told and nothing else. -/
theorem noted_idle {c : Client} {id : StreamId} {m : Move}
    (hop : m.op.handle? = some id.handle → m.op.act? c.explicit = none) :
    c.noted id m = (told id (c.advance m).2).map .told := by
  unfold noted
  split
  · rename_i h
    rw [hop h.2]
    rfl
  · rfl

theorem noted_acted {c : Client} {id : StreamId} {s : Stream} {m : Move} {a : Act}
    (hs : c.find id = some s) (hop : m.op.handle? = some id.handle)
    (ha : m.op.act? c.explicit = some a)
    (ht : told id (c.advance m).2 = (s.response.act a).events) :
    c.noted id m = s.response.happenings a := by
  unfold noted
  rw [if_pos ⟨by simp [hs], hop⟩, ha, ht]
  rfl

/-! ### Runs -/

/-- Nothing happens at a stream that was started and is not registered. -/
theorem chronicle_of_gone {c : Client} (hc : c.Sound) {id : StreamId} (hf : c.find id = none)
    (hn : id.serial < c.nextSerial) (ms : List Move) : c.chronicle id ms = [] := by
  induction ms generalizing c with
  | nil => rfl
  | cons m ms ih =>
    obtain ⟨hgone, hlog, -⟩ := gone_after hc hf hn [m]
    have ht : told id (c.advance m).2 = [] := by simpa [log, outputs] using hlog
    have hlt := Nat.lt_of_lt_of_le hn (does_advance hc.disjoint m).nextSerial
    rw [chronicle_cons, noted_absent hf ht, ih (sound_advance hc m) hgone hlt]
    rfl

/-- From a registered stream on, its chronicle is the course of its response
side as long as it is registered, and the end of one from there on. -/
theorem course_of_registered {c : Client} (hc : c.Sound) {id : StreamId} {s : Stream}
    (hs : c.find id = some s) {r : Response} {h : List Happening} (hr : r.Course h s.response)
    (ms : List Move) :
    (∃ t, (c.after ms).find id = some t ∧ r.Course (h ++ c.chronicle id ms) t.response) ∨
      ((c.after ms).find id = none ∧ r.Ends (h ++ c.chronicle id ms)) := by
  induction ms generalizing c s h with
  | nil => exact .inl ⟨s, hs, by simpa [chronicle] using hr⟩
  | cons m ms ih =>
    have hd := sound_advance hc m
    -- once the stream is gone, nothing more happens at it
    have ends_here (hf : (c.advance m).1.find id = none) (he : r.Ends (h ++ c.noted id m)) :
        (c.after (m :: ms)).find id = none ∧ r.Ends (h ++ c.chronicle id (m :: ms)) := by
      refine ⟨(gone_of_retired hc hs hf ms).1, ?_⟩
      have hlt := Nat.lt_of_lt_of_le (serial_lt_of_find hc hs) (does_advance hc.disjoint m).nextSerial
      rw [chronicle_cons, chronicle_of_gone hd hf hlt ms, List.append_nil]
      exact he
    rw [chronicle_cons, ← List.append_assoc]
    cases serves_advance hc hs m with
    | kept hf hresp hop ht =>
      have hnoted : c.noted id m = [] := by
        rw [noted_idle fun hh => (hop hh).2.1, ht]
        rfl
      rw [hnoted, List.append_nil]
      exact ih hd hf (hresp ▸ hr)
    | cancelled hop hf ht _ =>
      right
      rw [List.append_assoc, ← chronicle_cons]
      apply ends_here hf
      rw [noted_idle fun _ => by rw [hop]; rfl, ht]
      exact .cancelled hr
    | @answered a t hop ha hfin hf hresp ht _ =>
      rw [noted_acted hs hop ha ht]
      rw [← (fits_of_find hc hs).mode] at ha
      exact ih hd hf (hresp ▸ hr.act (admits_of_act? ha) hfin)
    | @retired a hop ha hfin hf ht _ =>
      right
      rw [List.append_assoc, ← chronicle_cons]
      apply ends_here hf
      rw [noted_acted hs hop ha ht]
      rw [← (fits_of_find hc hs).mode] at ha
      exact .acted hr (admits_of_act? ha) hfin

/-- What every act that does not end a stream keeps of its response side holds
as long as the stream is registered. -/
theorem kept_after {c : Client} (hc : c.Sound) {P : Response → Prop}
    (hstep : ∀ {r : Response} {a}, r.Balanced → P r → (r.act a).disposition.isFinal = false →
      P (r.act a).state)
    {id : StreamId} {s : Stream} (hs : c.find id = some s) (hp : P s.response) {ms : List Move}
    {t : Stream} (ht : (c.after ms).find id = some t) : P t.response := by
  rcases course_of_registered hc hs .start ms with ⟨t', ht', hco⟩ | ⟨hnone, -⟩
  · obtain rfl := Option.some.inj (ht.symm.trans ht')
    exact hco.invariant (P := fun r _ _ => P r) (fun hb hr hf => hstep hb hr hf)
      (fits_of_find hc hs).balanced hp
  · rw [ht] at hnone
    cases hnone

/-- The response side of a stream that is started. -/
def newborn (c : Client) : Response := { explicit := c.explicit, high := c.highWatermark }

theorem balanced_newborn (c : Client) : c.newborn.Balanced := Response.balanced_new _ _

theorem newborn_advance {c : Client} (hc : c.Sound) (m : Move) : (c.advance m).1.newborn = c.newborn := by
  have hd := does_advance hc.disjoint m
  unfold newborn
  rw [hd.explicit, hd.highWatermark]

/-- How a stream has fared in a run: it was not started, its response side has
come so far, or it has ended. -/
inductive Fared (c : Client) (id : StreamId) (ms : List Move) : Prop
  | unborn : (c.after ms).find id = none → c.chronicle id ms = [] → Fared c id ms
  | going {s : Stream} : (c.after ms).find id = some s →
      c.newborn.Course (c.chronicle id ms) s.response → Fared c id ms
  | ended : (c.after ms).find id = none → c.newborn.Ends (c.chronicle id ms) → Fared c id ms

theorem fared_after {c : Client} (hc : c.Sound) {id : StreamId} (hnone : c.find id = none)
    (ms : List Move) : c.Fared id ms := by
  induction ms generalizing c with
  | nil => exact .unborn hnone rfl
  | cons m ms ih =>
    have hd := sound_advance hc m
    have hnew := newborn_advance hc m
    cases sees_advance hc id m with
    | absent _ hf ht _ =>
      have hch : c.chronicle id (m :: ms) = (c.advance m).1.chronicle id ms := by
        rw [chronicle_cons, noted_absent hnone ht]
        rfl
      cases ih hd hf with
      | unborn hfind hnothing => exact .unborn hfind (hch.trans hnothing)
      | going hfind hco => exact .going hfind (by rwa [hch, ← hnew])
      | ended hfind hco => exact .ended hfind (by rwa [hch, ← hnew])
    | born _ _ _ hf ho =>
      have hnoted : c.noted id m = [] := noted_absent hnone (by rw [ho]; rfl)
      have hstart : c.newborn.Course [] (c.fresh id.handle).response := .start
      rcases course_of_registered hd hf hstart ms with ⟨s, hfind, hco⟩ | ⟨hfind, hco⟩
      · exact .going hfind (by rw [chronicle_cons, hnoted]; exact hco)
      · exact .ended hfind (by rw [chronicle_cons, hnoted]; exact hco)
    | idle h _ _ _ _ | cancelled _ h _ _ _ | answered _ _ h _ _ _ _ =>
      rw [hnone] at h
      cases h

/-- A registered stream has come so far. -/
theorem course_of_find {c : Client} (hc : c.Sound) {id : StreamId} (hnone : c.find id = none)
    {ms : List Move} {s : Stream} (hs : (c.after ms).find id = some s) :
    c.newborn.Course (c.chronicle id ms) s.response := by
  cases fared_after hc hnone ms with
  | unborn hf _ | ended hf _ =>
    rw [hs] at hf
    cases hf
  | going hf hco =>
    obtain rfl := Option.some.inj (hs.symm.trans hf)
    exact hco

/-- Whatever a stream is told is a cancel, or told by an act on a balanced
response side. -/
theorem told_of_log {c : Client} (hc : c.Sound) {id : StreamId} (hnone : c.find id = none)
    {ms : List Move} {e : Event} (he : e ∈ (c.log id ms).flatten) :
    e = .cancel ∨ ∃ r : Response, ∃ a, r.Balanced ∧ r.Admits a ∧ e ∈ (r.act a).events := by
  rw [← events_chronicle] at he
  cases fared_after hc hnone ms with
  | unborn _ hch =>
    rw [hch] at he
    cases he
  | going _ hco => exact .inr (hco.told c.balanced_newborn he)
  | ended _ hco => exact hco.told c.balanced_newborn he

/-- What holds of a response side when its stream is started, of the parts that
arrived and what was told, and is kept by every act that does not end the
stream, holds of every registered stream. -/
theorem invariant_of_started {c : Client} (hc : c.Sound)
    {P : Response → List ResponsePart → List Event → Prop}
    (hnew : ∀ explicit high, P { explicit := explicit, high := high } [] [])
    (hstep : ∀ {r : Response} {ps es a}, r.Balanced → P r ps es →
      (r.act a).disposition.isFinal = false →
      P (r.act a).state (ps ++ a.part?.toList) (es ++ (r.act a).events))
    {id : StreamId} (hnone : c.find id = none) {ms : List Move} {s : Stream}
    (hs : (c.after ms).find id = some s) :
    P s.response (c.arrivals id ms) (c.log id ms).flatten := by
  rw [← parts_chronicle, ← events_chronicle]
  exact (course_of_find hc hnone hs).invariant hstep c.balanced_newborn (hnew _ _)

end Client
end HttpExchange
