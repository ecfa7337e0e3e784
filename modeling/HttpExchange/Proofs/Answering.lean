/-
# When the loopback answers

A request object of the loopback may be called in any order: with headers that
come again, with data before them, after the end of the request and after a reset.
It knows the last headers and all bytes it was called with, and it is finished
from the first call on that ends the request or gives it up
(`Loopback.after_eq`). So it answers in one call at most, the first that ends the
request, and with the whole answer (`Loopback.call_after`).

An answer goes behind the dispatcher's queue. What others do with the queue in
between makes no difference to when the object answers and with what
(`Host.Calls`); a queue whose receiver is gone loses the answer for good.

Key definitions: `RequestCall.block?`, `Loopback.response`, `Loopback.posted`,
`Loopback.Answers`, `Host.Calls`.
Key theorems: `Loopback.after_eq`, `Loopback.call_after`, `Loopback.posted_snoc`,
`Host.loopback_answers_once`.
-/
import HttpExchange.Proofs.Delivery
import HttpExchange.Proofs.Echo

namespace HttpExchange

namespace RequestCall

/-- The headers the call brings. -/
def block? : RequestCall → Option Headers
  | headers block _ => some block
  | data .. | trailers _ | details _ | reset _ => none

/-- The body bytes the call brings. -/
def bytes : RequestCall → Bytes
  | data bytes _ => bytes
  | headers .. | trailers _ | details _ | reset _ => []

end RequestCall

namespace Loopback

/-! ### What is answered, and when -/

/-- The response to a request that was called with these, up to its end: a marked
header block if the last headers ask for an error, else headers with the cluster
of the last headers, the body if there is one, and trailers. -/
def response (cs : List RequestCall) : List ResponsePart :=
  let last := (cs.filterMap RequestCall.block?).getLast?
  match last.bind fun b => b.get? "x-loopback-error" with
  | some code =>
    [.headers (.ofList [(":status", "503"), ("x-internal-error-code", code),
      ("x-internal-error-message", "loopback error requested"),
      ("x-envoy-attempt-count", "1")]) true]
  | none =>
    let cluster := match last.bind fun b => b.get? "x-envoy-mobile-cluster" with
      | some name => [("x-loopback-cluster", name)]
      | none => []
    let body := cs.flatMap RequestCall.bytes
    .headers (.ofList ((":status", "200") :: cluster)) false
      :: (if body.isEmpty then [] else [.data body false])
      ++ [.trailers (.ofList [("x-loopback-trailer", "done")])]

/-- All that is posted for these calls: the response to the calls up to the first
that ends the request, unless there is no such call or a reset came before it. -/
def posted (cs : List RequestCall) : List ResponsePart :=
  let request := upTo RequestCall.ends cs
  if cs.any RequestCall.ends && !request.any RequestCall.isReset then response request else []

/-- After these calls this is the first that ends the request, and no reset was
among them. -/
def Answers (before : List RequestCall) (c : RequestCall) : Prop :=
  c.ends = true ∧ ∀ b ∈ before, b.ends = false ∧ b.isReset = false

/-! ### The request object -/

/-- The request object after these calls. -/
def after (cs : List RequestCall) : Loopback := cs.foldl (fun r c => (r.call c).1) {}

theorem after_snoc (cs : List RequestCall) (c : RequestCall) :
    after (cs ++ [c]) = ((after cs).call c).1 := by
  unfold after
  rw [List.foldl_append]
  rfl

/-- An object knows the last headers and all the bytes, and whether it was ended
or given up. -/
theorem after_eq (cs : List RequestCall) :
    let last := (cs.filterMap RequestCall.block?).getLast?
    after cs = { cluster := last.bind fun b => b.get? Headers.clusterName
                 errorCode := last.bind fun b => b.get? errorName
                 body := cs.flatMap RequestCall.bytes
                 finished := cs.any fun c => c.ends || c.isReset } := by
  induction cs using List.reverseRecOn with
  | nil => rfl
  | append_singleton cs c ih =>
    rw [after_snoc, call_eq, ih]
    cases c <;>
      simp [noted, List.filterMap_append, List.getLast?_append, RequestCall.block?,
        RequestCall.bytes, RequestCall.ends, RequestCall.isReset]

theorem answer_after (cs : List RequestCall) : (after cs).answer = response cs := by
  rw [after_eq]
  rfl

/-- A call is answered with the whole response, or not at all. -/
theorem call_after (cs : List RequestCall) (c : RequestCall) :
    ((after cs).call c).1 = after (cs ++ [c]) ∧
      (Answers cs c → ((after cs).call c).2 = response (cs ++ [c])) ∧
      (¬ Answers cs c → ((after cs).call c).2 = []) := by
  have hparts : ((after cs).call c).2 =
      if c.ends && !(after cs).finished then response (cs ++ [c]) else [] := by
    have hanswer : ((after cs).noted c).answer = response (cs ++ [c]) := by
      rw [← answer_after, after_snoc, call_eq]
      rfl
    rw [call_eq, hanswer]
  have hwhen : (c.ends && !(after cs).finished) = true ↔ Answers cs c := by
    rw [after_eq]
    unfold Answers
    simp
  refine ⟨(after_snoc cs c).symm, fun h => ?_, fun h => ?_⟩
  · rw [hparts, if_pos (hwhen.mpr h)]
  · rw [hparts, if_neg (hwhen.not.mpr h)]

/-! ### All the calls -/

/-- One more call adds to what is posted what it is answered with. -/
theorem posted_snoc (cs : List RequestCall) (c : RequestCall) :
    posted (cs ++ [c]) = posted cs ++ ((after cs).call c).2 := by
  obtain ⟨-, hyes, hno⟩ := call_after cs c
  by_cases hended : cs.any RequestCall.ends = true
  · -- the request has ended before: its calls are the same, and this one is too late
    have hlate : ¬ Answers cs c := by
      intro ⟨_, h⟩
      obtain ⟨b, hb, hends⟩ := List.any_eq_true.mp hended
      rw [(h b hb).1] at hends
      cases hends
    rw [hno hlate, List.append_nil]
    unfold posted
    rw [upTo_append_of_any hended, List.any_append, hended]
    rfl
  · rw [Bool.not_eq_true] at hended
    have hwhen : ((cs ++ [c]).any RequestCall.ends &&
        !(cs ++ [c]).any RequestCall.isReset) = true ↔ Answers cs c := by
      have hgoes (b : RequestCall) (hb : b ∈ cs) : b.ends = false := by
        rw [← Bool.not_eq_true]
        exact List.any_eq_false.mp hended b hb
      rw [List.any_append, hended, List.any_append]
      simp only [List.any_cons, List.any_nil, Bool.or_false, Bool.false_or, Bool.and_eq_true,
        Bool.not_eq_true', Bool.or_eq_false_iff, List.any_eq_false]
      constructor
      · intro ⟨hc, hreset, _⟩
        exact ⟨hc, fun b hb => ⟨hgoes b hb, (Bool.not_eq_true _).mp (hreset b hb)⟩⟩
      · intro ⟨hc, h⟩
        exact ⟨hc, fun b hb => (Bool.not_eq_true _).mpr (h b hb).2, RequestCall.not_isReset_of_ends hc⟩
    have hnone : posted cs = [] := by
      unfold posted
      rw [hended]
      rfl
    rw [hnone, List.nil_append]
    unfold posted
    rw [upTo_snoc hended]
    by_cases h : Answers cs c
    · rw [hyes h]
      exact if_pos (hwhen.mpr h)
    · rw [hno h]
      exact if_neg (hwhen.not.mpr h)

end Loopback

namespace Host

variable {id : StreamId} {u v w : Host} {cs : List RequestCall}

theorem sendAll_taken {i : Intake Task} (ho : i.Open 0) (ts : List Task) :
    i.Hands 0 ts (i.sendAll 0 ts).1 := by
  obtain ⟨j, hj, hands⟩ := Intake.sendAll_of_open ho ts
  rw [hj]
  exact hands

theorem sendAll_refused {i : Intake Task} (ho : ¬ i.Open 0) (ts : List Task) :
    (i.sendAll 0 ts).1 = i := by
  rw [Intake.sendAll_of_not_open ho]

/-! ### The queue -/

/-- From `w` to `v` the request object of a stream is called with these. In between
others do to the host and its queue what they like and leave the object alone. -/
inductive Calls (id : StreamId) (w : Host) : List RequestCall → Host → Prop
  | none : Calls id w [] w
  | call {cs : List RequestCall} {v : Host} (c : RequestCall) : Calls id w cs v →
      Calls id w (cs ++ [c]) (v.emit (.called id c))
  | others {cs : List RequestCall} {v u : Host} : Calls id w cs v →
      u.pipeline.requests.find? id.serial = v.pipeline.requests.find? id.serial →
      Calls id w cs u

/-- The host once a request object is called with these, one after the other. -/
def callAll (id : StreamId) (w : Host) (cs : List RequestCall) : Host :=
  cs.foldl (fun w c => w.emit (.called id c)) w

theorem callAll_snoc (id : StreamId) (w : Host) (cs : List RequestCall) (c : RequestCall) :
    callAll id w (cs ++ [c]) = (callAll id w cs).emit (.called id c) := by
  unfold callAll
  rw [List.foldl_append]
  rfl

theorem calls_callAll (id : StreamId) (w : Host) (cs : List RequestCall) :
    Calls id w cs (callAll id w cs) := by
  induction cs using List.reverseRecOn with
  | nil => exact .none
  | append_singleton cs c ih =>
    rw [callAll_snoc]
    exact .call c ih

/-- A call reaches the object, and its answer is sent to the queue. -/
theorem emit_called {r : Loopback} (hr : w.pipeline.requests.find? id.serial = some r)
    (c : RequestCall) :
    (w.emit (.called id c)).pipeline.requests.find? id.serial = some (r.call c).1 ∧
      (w.emit (.called id c)).intake =
        (w.intake.sendAll 0 ((r.call c).2.map (ResponsePart.task id.handle))).1 := by
  have hcall : w.pipeline.call id c =
      ({ w.pipeline with requests := w.pipeline.requests.insert id.serial (r.call c).1 },
        (r.call c).2) := by
    unfold Pipeline.call
    rw [hr]
  constructor
  · show (w.pipeline.call id c).1.requests.find? id.serial = _
    rw [hcall, Dict.find?_insert, if_pos rfl]
  · show (w.intake.sendAll 0 ((w.pipeline.call id c).2.map _)).1 = _
    rw [hcall]
    rfl

theorem find?_opened (id : StreamId) (hanswers : w.pipeline.answers = true) :
    (w.emit (.opened id)).pipeline.requests.find? id.serial = some (Loopback.after []) := by
  show (w.pipeline.create id).requests.find? id.serial = _
  unfold Pipeline.create
  rw [hanswers, if_pos rfl, Dict.find?_insert, if_pos rfl]
  rfl

/-- Whatever others do, the object knows the calls on it. -/
theorem Calls.find? (hw : w.pipeline.requests.find? id.serial = some (Loopback.after []))
    (h : Calls id w cs v) :
    v.pipeline.requests.find? id.serial = some (Loopback.after cs) := by
  induction h with
  | none => exact hw
  | call c _ ih => rw [(emit_called ih c).1, Loopback.after_snoc]
  | others _ hsame ih => exact hsame.trans ih

/-- The loopback answers a request at most once, and completely. However its object
is called, and whatever others do to the host between the calls, the call that ends
the request first puts the whole response behind the queue, if there was no reset
before it, and no other call puts anything there, earlier or later. If the queue's
receiver is gone when the request ends, nothing is put there, and later calls put
nothing there either, whatever becomes of the queue. Calls that nobody interrupts
put there all in all what is posted for them: one response, up to the end of the
request, or nothing. -/
theorem loopback_answers_once (w : Host) (id : StreamId) (hanswers : w.pipeline.answers = true) :
    let opened := w.emit (.opened id)
    (∀ cs c v, Calls id opened cs v →
      let u := v.emit (.called id c)
      (Loopback.Answers cs c → v.intake.Open 0 → v.intake.Hands 0
        ((Loopback.response (cs ++ [c])).map (ResponsePart.task id.handle)) u.intake) ∧
      (Loopback.Answers cs c → ¬ v.intake.Open 0 → u.intake = v.intake) ∧
      (¬ Loopback.Answers cs c → u.intake = v.intake)) ∧
    ∀ cs, let v := callAll id opened cs
      (w.intake.Open 0 → w.intake.Hands 0
        ((Loopback.posted cs).map (ResponsePart.task id.handle)) v.intake) ∧
      (¬ w.intake.Open 0 → v.intake = w.intake) := by
  intro opened
  have hopened := find?_opened id hanswers
  refine ⟨fun cs c v h => ?_, fun cs => ?_⟩
  · intro u
    obtain ⟨-, hu⟩ := emit_called (h.find? hopened) c
    obtain ⟨-, hyes, hno⟩ := Loopback.call_after cs c
    change u.intake = _ at hu
    rw [hu]
    refine ⟨fun ha ho => ?_, fun _ ho => sendAll_refused ho _, fun ha => ?_⟩
    · rw [hyes ha]
      exact sendAll_taken ho _
    · rw [hno ha]
      rfl
  · induction cs using List.reverseRecOn with
    | nil => exact ⟨fun _ => .nothing _ 0, fun _ => rfl⟩
    | append_singleton cs c ih =>
      obtain ⟨ihopen, ihclosed⟩ := ih
      obtain ⟨-, hu⟩ := emit_called ((calls_callAll id opened cs).find? hopened) c
      dsimp only
      rw [callAll_snoc, Loopback.posted_snoc, List.map_append, hu]
      constructor
      · intro ho
        apply (ihopen ho).trans
        exact sendAll_taken (((ihopen ho).opens 0).mpr ho) _
      · intro ho
        rw [ihclosed ho]
        exact sendAll_refused ho _

/-- Data before the headers and after the end, headers that come again, and a reset
at the end: one response with the last cluster and the bytes up to the end. With an
error asked for by the last headers it is the marked block alone, and with the reset
first there is none. A request that ends while the queue is closed is not answered
when it ends again and the queue is back. -/
theorem loopback_answers_once_mixed :
    let id : StreamId := ⟨⟨1⟩, 0⟩
    let w : Host := { pipeline := { answers := true }, intake := ({} : Intake Task).addChannel }
    let opened := w.emit (.opened id)
    let failing := [RequestCall.data [104] false,
      .headers (.ofList [("X-Loopback-Error", "2")]) false]
    let mixed := failing ++
      [.headers (.ofList [("x-envoy-mobile-cluster", "base")]) false, .details "late",
        .data [105] true, .data [33] true, .reset .localReset, .trailers {}]
    let closed : Host := { opened with intake := w.intake.closeChannel 0 }
    let reopened : Host := { closed.emit (.called id (.trailers {})) with intake := w.intake }
    (w.pipeline.answers = true ∧ w.intake.Open 0 ∧ ¬ closed.intake.Open 0 ∧
      Calls id opened [.trailers {}] reopened) ∧
    (callAll id opened mixed).intake.pending 0 =
      [ResponsePart.headers ⟨[(":status", "200"), ("x-loopback-cluster", "base")]⟩ false,
        .data [104, 105] false, .trailers ⟨[("x-loopback-trailer", "done")]⟩].map
          (ResponsePart.task ⟨1⟩) ∧
    (callAll id opened (failing ++ [.trailers {}])).intake.pending 0 =
      [ResponsePart.headers ⟨[(":status", "503"), ("x-internal-error-code", "2"),
        ("x-internal-error-message", "loopback error requested"),
        ("x-envoy-attempt-count", "1")]⟩ true].map (ResponsePart.task ⟨1⟩) ∧
    (callAll id opened (.reset .overflow :: mixed)).intake.pending 0 = [] ∧
    (closed.emit (.called id (.trailers {}))).intake = closed.intake ∧
    (reopened.emit (.called id (.trailers {}))).intake = w.intake := by
  intro id w opened failing mixed closed reopened
  obtain ⟨hstep, hall⟩ := loopback_answers_once w id rfl
  have hopen : w.intake.Open 0 := ⟨{}, rfl, rfl⟩
  have hclosed : ¬ closed.intake.Open 0 := by
    intro ⟨c, hc, ho⟩
    cases hc
    cases ho
  have hlost : Calls id opened [] closed := .others .none rfl
  have hback : Calls id opened [.trailers {}] reopened := .others (.call (.trailers {}) hlost) rfl
  have hpending (cs : List RequestCall) : (callAll id opened cs).intake.pending 0 =
      (Loopback.posted cs).map (ResponsePart.task ⟨1⟩) := ((hall cs).1 hopen).pending 0
  have hanswers : Loopback.Answers [] (.trailers {}) := ⟨rfl, fun b hb => by cases hb⟩
  have hlate : ¬ Loopback.Answers [.trailers {}] (.trailers {}) := fun h => by
    cases (h.2 _ List.mem_cons_self).1
  refine ⟨⟨rfl, hopen, hclosed, hback⟩, ?_, ?_, ?_,
    (hstep _ _ _ hlost).2.1 hanswers hclosed, (hstep _ _ _ hback).2.2 hlate⟩
  · rw [hpending]
    exact congrArg _ (by decide)
  · rw [hpending]
    exact congrArg _ (by decide)
  · rw [hpending]
    exact congrArg _ (by decide : Loopback.posted (.reset .overflow :: mixed) = [])

end Host
end HttpExchange
