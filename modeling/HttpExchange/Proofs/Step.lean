/-
# What an operation can do to a client

One relation, `Client.Does`, lists everything an operation can do: the entry
it puts under its handle, the rest of the client, and the outputs. What runs of
a client preserve is proved from this list, and the definition of a step stays
closed.

Key definitions: `Move`, `Client.advance`, `Client.entry`, `Client.Puts`,
`Client.Does`.
Key theorems: `Client.does_advance`, `Client.advance_of_unregistered`.
-/
import HttpExchange.Proofs.Registry
import HttpExchange.Proofs.Response

namespace HttpExchange

/-- An operation, and the network preferred when it is made. -/
structure Move where
  op : Operation
  network : Network := .generic
  deriving DecidableEq, Repr

/-- The handle an operation names. -/
def Operation.handle? : Operation → Option Handle
  | start h | sendHeaders h _ _ | sendData h _ _ | sendTrailers h _ | cancel h | resume h _
  | onHeaders h _ _ | onData h _ _ | onTrailers h _ | onReset h _ => some h
  | sweep => none

/-- What an operation does to the response side of its stream, if anything;
grants count in explicit mode only, and have to be positive. -/
def Operation.act? (explicit : Bool) : Operation → Option Act
  | resume _ credit => if explicit && credit != 0 then some (.grant credit) else none
  | onHeaders _ block last => some (.arrive (.headers block last))
  | onData _ bytes last => some (.arrive (.data bytes last))
  | onTrailers _ block => some (.arrive (.trailers block))
  | onReset _ reason => some (.arrive (.reset reason))
  | _ => none

/-- The part of a response that an operation brings. -/
def Operation.part? : Operation → Option ResponsePart
  | onHeaders _ block last => some (.headers block last)
  | onData _ bytes last => some (.data bytes last)
  | onTrailers _ block => some (.trailers block)
  | onReset _ reason => some (.reset reason)
  | _ => none

/-- Whether an operation sends a part of a request. -/
def Operation.sends : Operation → Bool
  | sendHeaders .. | sendData .. | sendTrailers .. => true
  | _ => false

/-- Whether an act closes the remote side. -/
def Act.closes : Act → Bool
  | .arrive (.headers _ last) => last
  | .arrive (.data _ last) => last
  | .arrive (.trailers _) => true
  | .arrive (.reset _) => true
  | .grant _ => false

/-- What the request object is told of an act. -/
def Act.calls : Act → List RequestCall
  | .arrive (.reset reason) => [.reset reason]
  | _ => []

/-- The outcomes with one more stream that ended so. -/
def Outcomes.settle (o : Outcomes) : Disposition → Outcomes
  | .unfinished => o
  | .completed true => { o with success := o.success + 1 }
  | .completed false => { o with failure := o.failure + 1 }
  | .failed => { o with failure := o.failure + 1 }

/-- The counters with one more stream that ended so. -/
def Counters.settle (k : Counters) : Disposition → Counters
  | .unfinished => k
  | .completed true => k.record .success
  | .completed false => k.record .failure
  | .failed => k.record .failure

/-- A stream as it is kept once it has left the registry. -/
def Stream.ended (s : Stream) : Stream := { s with localClosed := true, remoteClosed := true }

/-- The part that arrives in an act. -/
def Act.part? : Act → Option ResponsePart
  | .arrive p => some p
  | .grant _ => none

theorem Operation.part?_eq (op : Operation) (explicit : Bool) :
    op.part? = (op.act? explicit).bind Act.part? := by
  cases op with
  | resume h credit =>
    unfold act?
    by_cases hg : (explicit && credit != 0) = true
    · simp [hg, part?, Act.part?]
    · simp [hg, part?]
  | start _ | sendHeaders _ _ _ | sendData _ _ _ | sendTrailers _ _ | cancel _ | sweep
  | onHeaders _ _ _ | onData _ _ _ | onTrailers _ _ | onReset _ _ => rfl

/-- Without flow control there are no grants. -/
theorem Operation.act?_implicit (op : Operation) : op.act? false = op.part?.map .arrive := by
  cases op <;> rfl

namespace Client

open Registry (Bucket)

/-- One operation; a fault leaves the client as it was. -/
def advance (c : Client) (m : Move) : Client × List Output :=
  match c.step m.network m.op with
  | .ok r => r
  | .error _ => (c, [])

/-- The stream registered under a handle, and its bucket. -/
def entry (c : Client) (h : Handle) : Option (Bucket × Stream) := c.streams.lookup h

/-- `d` is `c` but for the entry under `h`, which is `e` now. -/
structure Puts (c : Client) (h : Handle) (e : Option (Bucket × Stream)) (d : Client) : Prop where
  entry : ∀ k, d.entry k = if k = h then e else c.entry k
  rest : { d with streams := c.streams } = c
  disjoint : d.streams.Disjoint

/-- A stream that has just been started. -/
def fresh (c : Client) (h : Handle) : Stream where
  id := ⟨h, c.nextSerial⟩
  response := { explicit := c.explicit, high := c.highWatermark }

/-- What is left of an entry when an act has been answered. -/
def entryAfter (b : Bucket) (s : Stream) (a : Act) : Option (Bucket × Stream) :=
  if (s.response.act a).disposition.isFinal then none
  else some (if a.closes then .closed else b,
    { s with remoteClosed := s.remoteClosed || a.closes, response := (s.response.act a).state })

/-- Everything but the entries when an act has been answered. -/
def settled (c : Client) (s : Stream) (a : Act) : Client :=
  let r := s.response.act a
  { c with
    outcomes := c.outcomes.settle r.disposition
    counters := (if r.raised then c.counters.record .highWatermark else c.counters).settle r.disposition
    retired := if r.disposition.isFinal then c.retired ++ [{ s with response := r.state }.ended]
      else c.retired }

/-- What an act puts out. -/
def answer (s : Stream) (a : Act) : List Output :=
  let r := s.response.act a
  a.calls.map (.called s.id) ++ r.events.map (.told s.id) ++
    if r.disposition.isFinal then [.released s.id.handle] else []

/-- What an operation can do. -/
inductive Does (c : Client) : Operation → Client → List Output → Prop
  | absent {op : Operation} {h : Handle} : op.handle? = some h → op ≠ .start h →
      c.entry h = none → Does c op c []
  | taken {h : Handle} {e : Bucket × Stream} : c.entry h = some e → Does c (.start h) c []
  /-- The request or the response has ended. -/
  | unsent {op : Operation} {h : Handle} : op.handle? = some h → op.sends →
      (∀ s, c.entry h = some (.opened, s) → s.localClosed = true) → Does c op c []
  | ungranted {h : Handle} {credit : Nat} : c.explicit = false ∨ credit = 0 →
      Does c (.resume h credit) c []
  | swept : Does c .sweep { c with retired := [] } []
  | started {h : Handle} {d : Client} : c.entry h = none →
      Puts { c with nextSerial := c.nextSerial + 1, counters := c.counters.record .started } h
        (some (.opened, c.fresh h)) d →
      Does c (.start h) d [.opened ⟨h, c.nextSerial⟩]
  | sent {op : Operation} {h : Handle} {s : Stream} {d : Client} {g : Draws} (last : Bool)
      (call : RequestCall) : op.handle? = some h → op.sends → c.entry h = some (.opened, s) →
      s.localClosed = false →
      Puts { c with draws := g } h (some (.opened, { s with localClosed := last })) d →
      Does c op d [.called s.id call]
  | cancelled {h : Handle} {b : Bucket} {s : Stream} {d : Client} : c.entry h = some (b, s) →
      Puts { c with
        outcomes.cancel := c.outcomes.cancel + 1
        counters := c.counters.record .cancel
        retired := c.retired ++ [s.ended] } h none d →
      Does c (.cancel h) d [.told s.id .cancel, .called s.id (.details cancelDetails),
        .called s.id (.reset .remoteReset), .released s.id.handle]
  | answered {op : Operation} {h : Handle} {b : Bucket} {s : Stream} {a : Act} {d : Client} :
      op.handle? = some h → op.act? c.explicit = some a → c.entry h = some (b, s) →
      Puts (c.settled s a) h (entryAfter b s a) d → Does c op d (answer s a)

/-! ### Putting an entry -/

theorem Puts.self (c : Client) (hc : c.streams.Disjoint) (h : Handle) : Puts c h (c.entry h) c where
  entry k := by by_cases hk : k = h <;> simp [hk]
  rest := rfl
  disjoint := hc

/-- A second entry under the same handle replaces the first. -/
theorem Puts.trans {c d e : Client} {h : Handle} {x y : Option (Bucket × Stream)}
    (hd : Puts c h x d) (he : Puts d h y e) : Puts c h y e where
  entry k := by
    rw [he.entry, hd.entry]
    by_cases hk : k = h <;> simp [hk]
  rest := by rw [← hd.rest, ← he.rest]
  disjoint := he.disjoint

/-- The entries and the rest of a client are changed apart. -/
theorem Puts.map {c d : Client} {h : Handle} {x : Option (Bucket × Stream)} (hd : Puts c h x d)
    (f : Client → Client) (hf : ∀ c, (f c).streams = c.streams)
    (hs : ∀ c r, f { c with streams := r } = { f c with streams := r }) : Puts (f c) h x (f d) where
  entry k := by
    have := hd.entry k
    unfold Client.entry at this ⊢
    rw [hf, hf]
    exact this
  rest := by rw [hf, ← hs, hd.rest]
  disjoint := by rw [hf]; exact hd.disjoint

section Fields

variable {c d : Client} {h : Handle} {e : Option (Bucket × Stream)}

theorem Puts.explicit (hd : Puts c h e d) : d.explicit = c.explicit := by rw [← hd.rest]

theorem Puts.highWatermark (hd : Puts c h e d) : d.highWatermark = c.highWatermark := by
  rw [← hd.rest]

theorem Puts.counters (hd : Puts c h e d) : d.counters = c.counters := by rw [← hd.rest]

theorem Puts.nextSerial (hd : Puts c h e d) : d.nextSerial = c.nextSerial := by rw [← hd.rest]

theorem Puts.outcomes (hd : Puts c h e d) : d.outcomes = c.outcomes := by rw [← hd.rest]

theorem Puts.retired (hd : Puts c h e d) : d.retired = c.retired := by rw [← hd.rest]

end Fields

theorem puts_modify {c : Client} (hc : c.streams.Disjoint) {h : Handle} {b : Bucket} {s : Stream}
    (he : c.entry h = some (b, s)) (f : Stream → Stream) :
    Puts c h (some (b, f s)) { c with streams := c.streams.modify h .anyState f } where
  entry k := by
    unfold entry at he ⊢
    rw [Registry.lookup_modify, he]
    rfl
  rest := rfl
  disjoint := Registry.disjoint_modify hc h .anyState f

theorem puts_close {c : Client} (hc : c.streams.Disjoint) {h : Handle} {b : Bucket} {s : Stream}
    (he : c.entry h = some (b, s)) :
    Puts c h (some (.closed, s)) { c with streams := (c.streams.close h).1 } where
  entry k := by
    unfold entry at he ⊢
    rw [Registry.lookup_close, he]
    rfl
  rest := rfl
  disjoint := Registry.disjoint_close hc h

/-- Taking a registered stream out leaves no entry. -/
theorem puts_remove {c : Client} (hc : c.streams.Disjoint) {h : Handle} {b : Bucket} {s : Stream}
    (he : c.entry h = some (b, s)) :
    ∃ r, c.streams.remove h = some (s, r) ∧ Puts c h none { c with streams := r } := by
  unfold entry at he
  cases hr : c.streams.remove h with
  | none =>
    rw [Registry.remove_eq_none, he] at hr
    cases hr
  | some sr =>
    obtain ⟨t, r⟩ := sr
    obtain ⟨ht, hk⟩ := Registry.lookup_remove hc hr
    rw [he] at ht
    obtain rfl : s = t := by simpa using ht
    exact ⟨r, rfl, hk, rfl, Registry.disjoint_remove hc hr⟩

/-! ### Each operation -/

theorem settle_final {c : Client} (hc : c.streams.Disjoint) {h : Handle} {b : Bucket} {s : Stream}
    (he : c.entry h = some (b, s)) {d : Disposition} (hd : d.isFinal) :
    (c.settle h d).2 = [.released s.id.handle] ∧
      Puts { c with
        outcomes := c.outcomes.settle d
        counters := c.counters.settle d
        retired := c.retired ++ [s.ended] } h none (c.settle h d).1 := by
  obtain ⟨r, hr, hp⟩ := puts_remove hc he
  have hp' := hp.map (fun c => { c with
    outcomes := c.outcomes.settle d, counters := c.counters.settle d
    retired := c.retired ++ [s.ended] }) (fun _ => rfl) (fun _ _ => rfl)
  match d with
  | .unfinished => cases hd
  | .completed true => simp only [settle, count, hr]; exact ⟨rfl, hp'⟩
  | .completed false => simp only [settle, count, hr]; exact ⟨rfl, hp'⟩
  | .failed => simp only [settle, count, hr]; exact ⟨rfl, hp'⟩

/-- Closing the remote side, if an act does. -/
theorem puts_closeIf {c : Client} (hc : c.streams.Disjoint) {h : Handle} {b : Bucket} {s : Stream}
    (he : c.entry h = some (b, s)) (last : Bool) :
    Puts c h (some (if last then .closed else b, s))
      (if last then { c with streams := (c.streams.close h).1 } else c) := by
  split
  · exact puts_close hc he
  · exact he ▸ .self c hc h

theorem Puts.countIf {c d : Client} {h : Handle} {e : Option (Bucket × Stream)} (hd : Puts c h e d)
    (raised : Bool) (m : Metric) :
    Puts { c with counters := if raised then c.counters.record m else c.counters } h e
      (if raised then d.count m else d) := by
  cases raised with
  | true => exact hd.map (fun c => c.count m) (fun _ => rfl) fun _ _ => rfl
  | false => exact hd

/-- Settling a stream whose response side stands after an act. -/
theorem settle_act {c d : Client} {h : Handle} {b : Bucket} {s : Stream} {a : Act}
    (hd : Puts { c with counters := if (s.response.act a).raised
        then c.counters.record .highWatermark else c.counters } h
      (some (if a.closes then .closed else b,
        { s with remoteClosed := s.remoteClosed || a.closes, response := (s.response.act a).state })) d) :
    (d.settle h (s.response.act a).disposition).2 =
        (if (s.response.act a).disposition.isFinal then [.released s.id.handle] else []) ∧
      Puts (c.settled s a) h (entryAfter b s a) (d.settle h (s.response.act a).disposition).1 := by
  unfold entryAfter settled
  by_cases hfin : (s.response.act a).disposition.isFinal = true
  · have he := (hd.entry h).trans (if_pos rfl)
    obtain ⟨ho, hp⟩ := settle_final hd.disjoint he hfin
    have hmap := hd.map (fun k => { k with
      outcomes := k.outcomes.settle (s.response.act a).disposition
      counters := k.counters.settle (s.response.act a).disposition
      retired := k.retired ++ [{ s with response := (s.response.act a).state }.ended] })
      (fun _ => rfl) fun _ _ => rfl
    simp only [hfin, ↓reduceIte]
    exact ⟨ho, hmap.trans hp⟩
  · have hun : (s.response.act a).disposition = .unfinished := by
      revert hfin
      cases (s.response.act a).disposition <;> simp [Disposition.isFinal]
    simp only [hun, Disposition.isFinal, Bool.false_eq_true, ↓reduceIte]
    exact ⟨rfl, hd⟩

/-- An act on a registered stream. -/
theorem respond_registered {c : Client} (hc : c.streams.Disjoint) {h : Handle} {b : Bucket}
    {s : Stream} (he : c.entry h = some (b, s)) (a : Act) :
    (c.respond h a.closes a.calls fun r => r.act a).2 = answer s a ∧
      Puts (c.settled s a) h (entryAfter b s a)
        (c.respond h a.closes a.calls fun r => r.act a).1 := by
  have hclose := puts_closeIf hc he a.closes
  unfold respond
  generalize (if a.closes then { c with streams := (c.streams.close h).1 } else c) = d at hclose ⊢
  have hd : d.entry h = some (if a.closes then .closed else b, s) :=
    (hclose.entry h).trans (if_pos rfl)
  have hf : d.streams.find? h .anyState = some s := by
    unfold entry at hd
    rw [Registry.find?_anyState, hd]
    rfl
  simp only [hf]
  have hmodify := hclose.trans (puts_modify hclose.disjoint hd fun t =>
    { t with remoteClosed := t.remoteClosed || a.closes, response := (s.response.act a).state })
  obtain ⟨ho, hp⟩ := settle_act (hmodify.countIf (s.response.act a).raised .highWatermark)
  exact ⟨by rw [ho]; rfl, hp⟩

theorem respond_unregistered {c : Client} {h : Handle} (he : c.entry h = none) (last : Bool)
    (calls : List RequestCall) (f : Response → Response.Reply) :
    c.respond h last calls f = (c, []) := by
  unfold entry at he
  have ho : c.streams.opened.find? h = none := ((Registry.lookup_eq_none _ _).mp he).1
  have hs : (if last then { c with streams := (c.streams.close h).1 } else c) = c := by
    unfold Registry.close
    rw [ho]
    simp
  unfold respond
  simp only [hs, Registry.find?_anyState, he]
  rfl

theorem does_respond {c : Client} (hc : c.streams.Disjoint) {op : Operation} {h : Handle} {a : Act}
    (hop : op.handle? = some h) (ha : op.act? c.explicit = some a) :
    Does c op (c.respond h a.closes a.calls fun r => r.act a).1
      (c.respond h a.closes a.calls fun r => r.act a).2 := by
  cases he : c.entry h with
  | none =>
    rw [respond_unregistered he]
    refine .absent hop ?_ he
    rintro rfl
    cases ha
  | some e =>
    obtain ⟨ho, hp⟩ := respond_registered hc he a
    rw [ho]
    exact .answered hop ha he hp

/-- What is found in the open bucket is an open entry. -/
theorem find?_openOnly (c : Client) (h : Handle) (s : Stream) :
    c.streams.find? h .openOnly = some s ↔ c.entry h = some (.opened, s) := by
  unfold entry
  rw [Registry.find?_openOnly]
  cases c.streams.lookup h with
  | none => simp
  | some e =>
    obtain ⟨b, t⟩ := e
    cases b <;> simp [Option.filter]

/-- A part of a request is sent on an open stream whose request goes on. -/
theorem send_open {c : Client} (hc : c.streams.Disjoint) {h : Handle} {s : Stream}
    (he : c.entry h = some (.opened, s)) (hl : s.localClosed = false) (last : Bool)
    (call : RequestCall) (g : Draws) :
    ({ c with draws := g }.send h last call).2 = [.called s.id call] ∧
      Puts { c with draws := g } h (some (.opened, { s with localClosed := last }))
        ({ c with draws := g }.send h last call).1 := by
  have hf : { c with draws := g }.streams.find? h .openOnly = some s :=
    (find?_openOnly c h s).mpr he
  unfold send
  simp only [hf, hl, Bool.false_eq_true, if_false]
  refine ⟨trivial, fun k => ?_, rfl, Registry.disjoint_modify hc h .openOnly _⟩
  unfold entry at he ⊢
  rw [Registry.lookup_modify_openOnly he, hl]
  simp

theorem does_send {c : Client} (hc : c.streams.Disjoint) {op : Operation} {h : Handle}
    (hop : op.handle? = some h) (ha : op.sends) (last : Bool) (call : RequestCall)
    (g : Draws) {s : Stream} (he : c.entry h = some (.opened, s)) (hl : s.localClosed = false) :
    Does c op ({ c with draws := g }.send h last call).1
      ({ c with draws := g }.send h last call).2 := by
  obtain ⟨ho, hp⟩ := send_open hc he hl last call g
  rw [ho]
  exact .sent last call hop ha he hl hp

theorem does_refuse {c : Client} {op : Operation} {h : Handle} (hop : op.handle? = some h)
    (ha : op.sends) {o : Option Stream} (hf : c.streams.find? h .openOnly = o)
    (ho : ∀ s, o = some s → s.localClosed = true) : Does c op c [] :=
  .unsent hop ha fun s he => ho s (hf ▸ (find?_openOnly c h s).mpr he)

theorem does_sendPart {c : Client} (hc : c.streams.Disjoint) {op : Operation} {h : Handle}
    (hop : op.handle? = some h) (ha : op.sends) (last : Bool) (call : RequestCall) :
    Does c op (c.send h last call).1 (c.send h last call).2 := by
  cases hf : c.streams.find? h .openOnly with
  | none =>
    unfold send
    rw [hf]
    exact does_refuse hop ha hf (by simp)
  | some s =>
    cases hl : s.localClosed with
    | true =>
      unfold send
      simp only [hf, hl, if_true]
      exact does_refuse hop ha hf (by simpa using hl)
    | false => exact does_send hc hop ha last call c.draws ((find?_openOnly c h s).mp hf) hl

theorem does_sendHeaders {c : Client} (hc : c.streams.Disjoint) (network : Network) (h : Handle)
    (block : Headers) (last : Bool) :
    Does c (.sendHeaders h block last) (c.sendHeaders network h block last).1
      (c.sendHeaders network h block last).2 := by
  unfold sendHeaders
  cases hf : c.streams.find? h .openOnly with
  | none => exact does_refuse rfl rfl hf (by simp)
  | some s =>
    cases hl : s.localClosed with
    | true =>
      simp only [hl, if_true]
      exact does_refuse rfl rfl hf (by simpa using hl)
    | false =>
      simp only [hl, Bool.false_eq_true, if_false]
      exact does_send hc rfl rfl last _ _ ((find?_openOnly c h s).mp hf) hl

theorem does_cancel {c : Client} (hc : c.streams.Disjoint) (h : Handle) :
    Does c (.cancel h) (c.cancel h).1 (c.cancel h).2 := by
  unfold cancel
  cases he : c.entry h with
  | none =>
    rw [(Registry.remove_eq_none c.streams h).mpr he]
    exact .absent rfl (by simp) he
  | some e =>
    obtain ⟨b, s⟩ := e
    obtain ⟨r, hr, hp⟩ := puts_remove hc he
    rw [hr]
    exact .cancelled he (hp.map (fun c => { c with
      outcomes.cancel := c.outcomes.cancel + 1
      counters := c.counters.record .cancel
      retired := c.retired ++ [s.ended] }) (fun _ => rfl) fun _ _ => rfl)

theorem does_resume {c : Client} (hc : c.streams.Disjoint) (h : Handle) (credit : Nat) :
    Does c (.resume h credit) (c.resume h credit).1 (c.resume h credit).2 := by
  unfold resume
  split
  · rename_i hg
    exact .ungranted (by simpa using hg)
  · rename_i hg
    refine does_respond hc (a := .grant credit) rfl ?_
    unfold Operation.act?
    cases hx : c.explicit <;> simp_all

theorem start_unregistered {c : Client} {h : Handle} (he : c.entry h = none) :
    ∃ r, c.streams.insert h (c.fresh h) = .ok r ∧ c.start h =
      .ok ({ c with streams := r, nextSerial := c.nextSerial + 1 }.count .started,
        [.opened ⟨h, c.nextSerial⟩]) := by
  unfold entry at he
  have hn : c.streams.contains h .anyState = false := by
    rw [Registry.contains_anyState, he]
    rfl
  obtain ⟨r, hr⟩ := Registry.insert_of_unregistered he (c.fresh h)
  refine ⟨r, hr, ?_⟩
  unfold fresh at hr
  unfold start
  rw [hn]
  simp only [hr]
  rfl

theorem start_registered {c : Client} {h : Handle} {e : Bucket × Stream} (he : c.entry h = some e) :
    c.start h = .error (.startedTwice h) := by
  unfold entry at he
  unfold start
  rw [Registry.contains_anyState, he]
  rfl

theorem does_start {c : Client} (hc : c.streams.Disjoint) (network : Network) (h : Handle) :
    Does c (.start h) (c.advance ⟨.start h, network⟩).1 (c.advance ⟨.start h, network⟩).2 := by
  unfold advance
  cases he : c.entry h with
  | some e =>
    rw [show c.step network (.start h) = _ from start_registered he]
    exact .taken he
  | none =>
    obtain ⟨r, hr, hs⟩ := start_unregistered he
    rw [show c.step network (.start h) = _ from hs]
    exact .started he ⟨fun k => Registry.lookup_insert hr k, rfl, Registry.disjoint_insert hc hr⟩

/-- Every operation does one of the things listed. -/
theorem does_advance {c : Client} (hc : c.streams.Disjoint) (m : Move) :
    Does c m.op (c.advance m).1 (c.advance m).2 := by
  obtain ⟨op, network⟩ := m
  cases op with
  | start h => exact does_start hc network h
  | sendHeaders h block last => exact does_sendHeaders hc network h block last
  | sendData h bytes last => exact does_sendPart hc rfl rfl last _
  | sendTrailers h block => exact does_sendPart hc rfl rfl true _
  | cancel h => exact does_cancel hc h
  | resume h credit => exact does_resume hc h credit
  | onHeaders h block last => exact does_respond hc (a := .arrive (.headers block last)) rfl rfl
  | onData h bytes last => exact does_respond hc (a := .arrive (.data bytes last)) rfl rfl
  | onTrailers h block => exact does_respond hc (a := .arrive (.trailers block)) rfl rfl
  | onReset h reason => exact does_respond hc (a := .arrive (.reset reason)) rfl rfl
  | sweep => exact .swept

/-- An operation that does something to a response side. -/
theorem advance_of_act? {c : Client} {m : Move} {h : Handle} {a : Act}
    (hop : m.op.handle? = some h) (ha : m.op.act? c.explicit = some a) :
    c.advance m = c.respond h a.closes a.calls fun r => r.act a := by
  obtain ⟨op, network⟩ := m
  cases op with
  | start _ | sendHeaders _ _ _ | sendData _ _ _ | sendTrailers _ _ | cancel _ | sweep => cases ha
  | onHeaders _ _ _ | onData _ _ _ | onTrailers _ _ | onReset _ _ =>
    cases hop
    cases ha
    rfl
  | resume k credit =>
    cases hop
    unfold Operation.act? at ha
    dsimp only at ha
    split at ha
    · rename_i hg
      cases ha
      have hno : (!c.explicit || credit == 0) = false := by simpa using hg
      unfold advance
      dsimp only [step]
      unfold resume
      rw [if_neg (by simp [hno])]
      rfl
    · cases ha

section Does

variable {c d : Client} {op : Operation} {outs : List Output}

theorem Does.explicit (hd : Does c op d outs) : d.explicit = c.explicit := by
  cases hd with
  | absent _ _ _ | taken _ | unsent _ _ _ | ungranted _ | swept => rfl
  | started _ hp | cancelled _ hp => exact hp.explicit
  | sent _ _ _ _ _ _ hp | answered _ _ _ hp => exact hp.explicit

theorem Does.highWatermark (hd : Does c op d outs) : d.highWatermark = c.highWatermark := by
  cases hd with
  | absent _ _ _ | taken _ | unsent _ _ _ | ungranted _ | swept => rfl
  | started _ hp | cancelled _ hp => exact hp.highWatermark
  | sent _ _ _ _ _ _ hp | answered _ _ _ hp => exact hp.highWatermark

/-- Serials are given out once. -/
theorem Does.nextSerial (hd : Does c op d outs) : c.nextSerial ≤ d.nextSerial := by
  cases hd with
  | absent _ _ _ | taken _ | unsent _ _ _ | ungranted _ | swept => exact Nat.le_refl _
  | started _ hp => exact hp.nextSerial ▸ Nat.le_succ _
  | cancelled _ hp => exact Nat.le_of_eq hp.nextSerial.symm
  | sent _ _ _ _ _ _ hp | answered _ _ _ hp => exact Nat.le_of_eq hp.nextSerial.symm

/-- An operation leaves the other handles alone. -/
theorem Does.frame (hd : Does c op d outs) {k : Handle} (hk : op.handle? ≠ some k) :
    d.entry k = c.entry k := by
  have other {c' : Client} {h : Handle} {e : Option (Bucket × Stream)} (hp : Puts c' h e d)
      (hc : c'.streams = c.streams) (hop : op.handle? = some h) : d.entry k = c.entry k := by
    have hkh : k ≠ h := by
      rintro rfl
      exact hk hop
    rw [hp.entry, if_neg hkh]
    unfold entry
    rw [hc]
  cases hd with
  | absent _ _ _ | taken _ | unsent _ _ _ | ungranted _ | swept => rfl
  | started _ hp => exact other hp rfl rfl
  | sent _ _ hop _ _ _ hp => exact other hp rfl hop
  | cancelled _ hp => exact other hp rfl rfl
  | answered hop _ _ hp => exact other hp rfl hop

/-- A stream leaves its handle only by leaving it empty. -/
theorem Does.leaves (hd : Does c op d outs) {k : Handle} {b : Bucket} {s : Stream}
    (hk : c.entry k = some (b, s)) :
    d.entry k = none ∨ ∃ b' t, d.entry k = some (b', t) ∧ t.id = s.id := by
  by_cases hop : op.handle? = some k
  · have same {h : Handle} (hh : op.handle? = some h) : h = k := by
      rw [hop, Option.some.injEq] at hh
      exact hh.symm
    cases hd with
    | absent _ _ _ | taken _ | unsent _ _ _ | ungranted _ | swept => exact .inr ⟨b, s, hk, rfl⟩
    | started he _ =>
      obtain rfl := same rfl
      rw [hk] at he
      cases he
    | sent _ _ hh _ he _ hp =>
      obtain rfl := same hh
      rw [hk, Option.some.injEq, Prod.mk.injEq] at he
      right
      exact ⟨_, _, (hp.entry _).trans (if_pos rfl), he.2 ▸ rfl⟩
    | cancelled _ hp =>
      obtain rfl := same rfl
      left
      exact (hp.entry _).trans (if_pos rfl)
    | @answered _ h _ t a _ hh _ he hp =>
      obtain rfl := same hh
      rw [hk, Option.some.injEq, Prod.mk.injEq] at he
      have hentry := (hp.entry h).trans (if_pos rfl)
      unfold entryAfter at hentry
      split at hentry
      · exact .inl hentry
      · exact .inr ⟨_, _, hentry, he.2 ▸ rfl⟩
  · exact .inr ⟨b, s, (hd.frame hop).trans hk, rfl⟩

/-- An operation on a handle that is not registered does nothing at all, unless
it starts the stream. -/
theorem Does.idle (hd : Does c op d outs) {h : Handle} (hop : op.handle? = some h)
    (hs : op ≠ .start h) (he : c.entry h = none) : d = c ∧ outs = [] := by
  have absurd_registered {k : Handle} {e : Bucket × Stream} (hk : op.handle? = some k)
      (hr : c.entry k = some e) : d = c ∧ outs = [] := by
    rw [hop, Option.some.injEq] at hk
    rw [← hk, he] at hr
    cases hr
  cases hd with
  | absent _ _ _ | taken _ | unsent _ _ _ | ungranted _ => exact ⟨rfl, rfl⟩
  | swept => cases hop
  | started _ _ =>
    cases hop
    exact absurd rfl hs
  | sent _ _ hk _ hr _ _ => exact absurd_registered hk hr
  | cancelled hr _ => exact absurd_registered rfl hr
  | answered hk _ hr _ => exact absurd_registered hk hr

/-- A handle is taken by a start only. -/
theorem Does.stays_empty (hd : Does c op d outs) {k : Handle} (hk : c.entry k = none)
    (hs : op ≠ .start k) : d.entry k = none := by
  by_cases hop : op.handle? = some k
  · rw [(hd.idle hop hs hk).1, hk]
  · rw [hd.frame hop, hk]

end Does

theorem advance_of_unregistered {c : Client} (hc : c.streams.Disjoint) {m : Move} {h : Handle}
    (hop : m.op.handle? = some h) (hs : m.op ≠ .start h) (he : c.entry h = none) :
    c.advance m = (c, []) := by
  obtain ⟨hd, ho⟩ := (does_advance hc m).idle hop hs he
  exact Prod.ext hd ho

end Client
end HttpExchange
