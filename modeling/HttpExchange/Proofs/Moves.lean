/-
# One move, by what is registered

What a move does follows from its operation and from what is registered under
the handle it names: nothing at all, a new stream, a call on the request object,
or an answer of the response side. The relation `Client.Does` lists these; here
each is a function of the two.

Key definitions: `Operation.endsRequest`, `Operation.call?`, `Client.draw`.
Key theorems: `Client.kinds_of_handle`, `Client.advance_started`,
`Client.advance_passed`, `Client.advance_answered`.
-/
import HttpExchange.Proofs.Run

namespace HttpExchange

/-- The operation ends the request that it is a part of. -/
def Operation.endsRequest : Operation → Bool
  | sendHeaders _ _ last | sendData _ _ last => last
  | sendTrailers _ _ => true
  | _ => false

/-- The call that an operation is passed on as, if it sends a part of a request. -/
def Operation.call? (network : Network) (alternate : Bool) : Operation → Option RequestCall
  | sendHeaders _ block last => some (.headers (block.routed network alternate) last)
  | sendData _ bytes last => some (.data bytes last)
  | sendTrailers _ block => some (.trailers block)
  | _ => none

theorem Operation.call?_of_sends {op : Operation} (ha : op.sends = true) (network : Network)
    (alternate : Bool) : ∃ call, op.call? network alternate = some call := by
  cases op with
  | sendHeaders _ _ _ | sendData _ _ _ | sendTrailers _ _ => exact ⟨_, rfl⟩
  | start _ | cancel _ | resume _ _ | onHeaders _ _ _ | onData _ _ _ | onTrailers _ _
  | onReset _ _ | sweep => cases ha

namespace Client

open Registry (Bucket)

/-- The partition that the next draw picks. -/
def draw (c : Client) : Bool := c.draws.next.1 % 2 == 1

variable {c : Client} {h : Handle} {m : Move}

/-- An operation on a handle is of one of five kinds. -/
theorem kinds_of_handle {op : Operation} (hop : op.handle? = some h) (explicit : Bool) :
    op = .start h ∨ op.sends = true ∨ op = .cancel h ∨ (∃ a, op.act? explicit = some a) ∨
      ∃ credit, op = .resume h credit ∧ (explicit = false ∨ credit = 0) := by
  cases op with
  | start _ =>
    cases hop
    exact .inl rfl
  | sendHeaders _ _ _ | sendData _ _ _ | sendTrailers _ _ => exact .inr (.inl rfl)
  | cancel _ =>
    cases hop
    exact .inr (.inr (.inl rfl))
  | onHeaders _ _ _ | onData _ _ _ | onTrailers _ _ | onReset _ _ =>
    exact .inr (.inr (.inr (.inl ⟨_, rfl⟩)))
  | sweep => cases hop
  | resume _ credit =>
    cases hop
    by_cases hg : (explicit && credit != 0) = true
    · have hact : (Operation.resume h credit).act? explicit = some (.grant credit) := if_pos hg
      exact .inr (.inr (.inr (.inl ⟨_, hact⟩)))
    · have hno : explicit = false ∨ credit = 0 := by
        cases explicit
        · exact .inl rfl
        · exact .inr (by simpa using hg)
      exact .inr (.inr (.inr (.inr ⟨credit, rfl, hno⟩)))

/-- A part of a request is dropped unless the stream is open and its request
goes on. -/
theorem advance_unsent (hc : c.Sound) (hop : m.op.handle? = some h) (ha : m.op.sends = true)
    (hl : ∀ s, c.entry h = some (.opened, s) → s.localClosed = true) : c.advance m = (c, []) := by
  have hd := does_advance hc.disjoint m
  generalize c.advance m = r at hd ⊢
  obtain ⟨d, outs⟩ := r
  dsimp only at hd
  generalize m.op = op at hop ha hd
  cases hd with
  | absent _ _ _ | taken _ | unsent _ _ _ | ungranted _ => rfl
  | swept | started _ _ | cancelled _ _ => cases ha
  | sent _ _ hk _ he hopen _ =>
    rw [hop, Option.some.injEq] at hk
    rw [hl _ (hk ▸ he)] at hopen
    cases hopen
  | answered _ hact _ _ =>
    rw [act?_of_sends ha] at hact
    cases hact

/-- A grant counts in explicit mode only, and has to be positive. -/
theorem advance_ungranted {credit : Nat} (hm : m.op = .resume h credit)
    (hg : c.explicit = false ∨ credit = 0) : c.advance m = (c, []) := by
  obtain ⟨op, network⟩ := m
  obtain rfl : op = .resume h credit := hm
  have hno : (!c.explicit || credit == 0) = true := by simpa using hg
  change c.resume h credit = (c, [])
  unfold resume
  rw [if_pos hno]

/-- A handle that is taken is not started. -/
theorem advance_taken {e : Bucket × Stream} (hm : m.op = .start h) (he : c.entry h = some e) :
    c.advance m = (c, []) := by
  obtain ⟨op, network⟩ := m
  obtain rfl : op = .start h := hm
  unfold advance
  rw [show c.step network (.start h) = _ from start_registered he]

theorem advance_started (hc : c.Sound) (hm : m.op = .start h) (he : c.entry h = none) :
    (c.advance m).2 = [.opened ⟨h, c.nextSerial⟩] ∧
      Puts { c with nextSerial := c.nextSerial + 1, counters := c.counters.record .started } h
        (some (.opened, c.fresh h)) (c.advance m).1 := by
  have hd := does_advance hc.disjoint m
  generalize c.advance m = r at hd ⊢
  obtain ⟨d, outs⟩ := r
  dsimp only at hd ⊢
  rw [hm] at hd
  cases hd with
  | absent hk hs _ =>
    cases hk
    exact absurd rfl hs
  | taken ht =>
    rw [he] at ht
    cases ht
  | unsent _ ha _ | sent _ _ _ ha _ _ _ | answered _ ha _ _ => cases ha
  | started _ hp => exact ⟨rfl, hp⟩

/-- A send on an open stream whose request goes on is passed on; headers take a
draw. -/
theorem advance_passed (hc : c.Sound) (hop : m.op.handle? = some h) {call : RequestCall}
    (hcall : m.op.call? m.network c.draw = some call) {s : Stream}
    (he : c.entry h = some (.opened, s)) (hl : s.localClosed = false) :
    (c.advance m).2 = [.called s.id call] ∧ ∃ g, Puts { c with draws := g } h
      (some (.opened, { s with localClosed := m.op.endsRequest })) (c.advance m).1 := by
  have hf : c.streams.find? h .openOnly = some s := (find?_openOnly c h s).mpr he
  have hopen := send_open hc.disjoint he hl
  obtain ⟨op, network⟩ := m
  cases op with
  | sendHeaders k block last =>
    cases hop
    cases hcall
    have hadv : c.advance ⟨.sendHeaders h block last, network⟩ =
        { c with draws := c.draws.next.2 }.send h last
          (.headers (block.routed network c.draw) last) := by
      change c.sendHeaders network h block last = _
      unfold sendHeaders
      rw [hf]
      dsimp only
      rw [hl]
      rfl
    rw [hadv]
    exact ⟨(hopen last _ _).1, _, (hopen last _ _).2⟩
  | sendData k bytes last =>
    cases hop
    cases hcall
    exact ⟨(hopen last _ c.draws).1, c.draws, (hopen last _ c.draws).2⟩
  | sendTrailers k block =>
    cases hop
    cases hcall
    exact ⟨(hopen true _ c.draws).1, c.draws, (hopen true _ c.draws).2⟩
  | start _ | cancel _ | resume _ _ | onHeaders _ _ _ | onData _ _ _ | onTrailers _ _
  | onReset _ _ | sweep => cases hcall

theorem advance_cancelled (hc : c.Sound) (hm : m.op = .cancel h) {b : Bucket} {s : Stream}
    (he : c.entry h = some (b, s)) :
    (c.advance m).2 = [.told s.id .cancel, .called s.id (.details cancelDetails),
      .called s.id (.reset .remoteReset), .released s.id.handle] ∧
      Puts { c with
        outcomes.cancel := c.outcomes.cancel + 1
        counters := c.counters.record .cancel
        retired := c.retired ++ [s.ended] } h none (c.advance m).1 := by
  have hd := does_advance hc.disjoint m
  generalize c.advance m = r at hd ⊢
  obtain ⟨d, outs⟩ := r
  dsimp only at hd ⊢
  rw [hm] at hd
  cases hd with
  | absent hk _ hn =>
    cases hk
    rw [he] at hn
    cases hn
  | unsent _ ha _ | sent _ _ _ ha _ _ _ | answered _ ha _ _ => cases ha
  | cancelled he' hp =>
    cases he.symm.trans he'
    exact ⟨rfl, hp⟩

theorem advance_answered (hc : c.Sound) {a : Act} (hop : m.op.handle? = some h)
    (ha : m.op.act? c.explicit = some a) {b : Bucket} {s : Stream} (he : c.entry h = some (b, s)) :
    (c.advance m).2 = answer s a ∧ Puts (c.settled s a) h (entryAfter b s a) (c.advance m).1 := by
  rw [advance_of_act? hop ha]
  exact respond_registered hc.disjoint he a

end Client
end HttpExchange
