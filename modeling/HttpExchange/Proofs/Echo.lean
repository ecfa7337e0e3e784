/-
# The echo of the loopback

A client without flow control over the loopback, driven by starts, sends and
turns in any order and on any number of streams: what each application hears is a
function of what was sent on its own stream (`Loopback.echo`).

The two sides meet at a list of response parts. On the one side the request object
gathers what is sent and answers with such a list once the request has ended
(`Loopback.call_of_sent`); on the other the response side makes events of the list
(`Loopback.exchange_answer`). In between the parts wait in the queue among those of
other streams, and what was heard so far and what the waiting parts will tell make
up the echo (`Host.Stands`).

Key definitions: `Sent`, `Loopback.echo`, `Loopback.gather`, `Host.Calm`,
`Host.Stands`, `Session.Step.Drives`, `Session.sends`.
Key theorems: `Loopback.call_eq`, `Loopback.exchange_answer`,
`Host.stands_send`, `Host.stands_part`, `Session.carries_perform`,
`Session.loopback_echoes`.
-/
import Mathlib.Data.List.Induction
import HttpExchange.Proofs.Exchange
import HttpExchange.Proofs.Listening
import HttpExchange.Proofs.Outbound

namespace HttpExchange

open Registry (Bucket)

/-! ### Headers, as the request object reads them -/

namespace Headers

section Get

variable {b : Headers} {n m : String}

theorem get?_remove (h : Text.alike n m = false) : (b.remove n).get? m = b.get? m := by
  have hkept (e : String × String) :
      decide ((!named n e) = true ∧ named m e = true) = named m e := by
    unfold named
    cases hm : Text.alike e.1 m with
    | false => simp
    | true =>
      have hn : Text.alike e.1 n = false := by
        rw [Bool.eq_false_iff]
        intro hn
        have hnm : Text.lower n = Text.lower m :=
          ((Text.alike_iff _ _).mp hn).symm.trans ((Text.alike_iff _ _).mp hm)
        rw [(Text.alike_iff n m).mpr hnm] at h
        cases h
      simp [hn]
  unfold get?
  rw [entries_remove, List.find?_filter]
  simp only [hkept]

theorem get?_set_self {v : String} (h : Text.alike (Text.lower n) m = true) :
    (b.set n v).get? m = some v := by
  have hnone : (b.remove (Text.lower n)).entries.find? (named m) = none := by
    rw [entries_remove, List.find?_eq_none]
    intro e he hm
    have hn := (List.mem_filter.mp he).2
    have hen : Text.alike e.1 (Text.lower n) = true :=
      (Text.alike_iff _ _).mpr (((Text.alike_iff _ _).mp hm).trans ((Text.alike_iff _ _).mp h).symm)
    unfold named at hn
    rw [hen] at hn
    cases hn
  have hlast : [(Text.lower n, v)].find? (named m) = some (Text.lower n, v) :=
    List.find?_cons_of_pos h
  unfold get?
  rw [entries_set, List.find?_append, hnone, hlast]
  rfl

theorem get?_set_other {v : String} (h : Text.alike (Text.lower n) m = false) :
    (b.set n v).get? m = b.get? m := by
  have hnot : ¬ named m (Text.lower n, v) = true := by
    unfold named
    rw [h]
    exact Bool.false_ne_true
  have hkept := get?_remove (b := b) h
  unfold get? at hkept ⊢
  rw [entries_set, List.find?_append, List.find?_cons_of_neg hnot, List.find?_nil, Option.or_none]
  exact hkept

end Get

theorem entries_ofList (fields : List (String × String)) :
    (ofList fields).entries = fields.map fun f => (Text.lower f.1, f.2) := by
  induction fields using List.reverseRecOn with
  | nil => rfl
  | append_singleton fields f ih =>
    unfold ofList at ih ⊢
    rw [List.foldl_append, List.map_append, ← ih]
    rfl

theorem get?_ofList (fields : List (String × String)) (m : String) :
    (ofList fields).get? m =
      (fields.find? fun f => Text.alike (Text.lower f.1) m).map Prod.snd := by
  unfold get?
  rw [entries_ofList, List.find?_map, Option.map_map]
  rfl

/-- The cluster that routed headers name is the one that was chosen for them. -/
theorem get?_cluster_routed (b : Headers) (network : Network) (alternate : Bool) :
    (b.routed network alternate).get? clusterName =
      some (clusterFor b.scheme? b.protocolHint network alternate) := by
  unfold routed
  rw [get?_set_other (by decide), get?_set_self (by decide)]

/-- Routing does not touch the request for an error. -/
theorem get?_error_routed (b : Headers) (network : Network) (alternate : Bool) :
    (b.routed network alternate).get? Loopback.errorName = b.get? Loopback.errorName := by
  unfold routed
  rw [get?_set_other (by decide), get?_set_other (by decide), get?_remove (by decide)]

end Headers

/-! ### The response side, where nothing has to wait -/

namespace Response

variable {s : Response}

/-- Without flow control data is passed on as it comes. -/
theorem onData_at_once (s : Response) (hx : s.explicit = false) (he : s.error = none)
    {bytes : Bytes} (hb : bytes.isEmpty = false) :
    s.onData bytes false = { state := { s with credit := 0 }, events := [.data bytes false] } := by
  have hreceive : s.receiveEnd false = s := rfl
  have hkeep : ¬ (bytes.isEmpty && !false) = true := by simp [hb]
  unfold onData
  dsimp only
  rw [hreceive, if_neg (by simp [he]), if_neg hkeep, if_pos (by simp [hx])]
  rfl

/-- Without flow control trailers are passed on as they come. -/
theorem onTrailers_at_once (s : Response) (hx : s.explicit = false) (he : s.error = none)
    (block : Headers) :
    s.onTrailers block =
      { state := { s with endReceived := true, endForwarded := true }
        events := [.trailers block, .complete]
        disposition := .completed s.success } := by
  have hreceive : s.receiveEnd true = { s with endReceived := true } := rfl
  unfold onTrailers
  dsimp only
  rw [hreceive, if_neg (by simp [he]), if_neg (by simp [hx])]
  rfl

theorem exchange_headers (s : Response) {block : Headers}
    (h : StreamError.ofHeaders? block = none) (as : List Act) :
    s.exchange (.arrive (.headers block false) :: as) =
      (({ s with success := block.succeeds, headersForwarded := true } : Response).exchange
        as).after [.headers block false] := by
  have hact : s.act (.arrive (.headers block false)) = _ := s.onHeaders_unmarked h
  rw [exchange_unfinished (by rw [hact]; rfl), hact]

theorem exchange_data (hx : s.explicit = false) (he : s.error = none) {bytes : Bytes}
    (hb : bytes.isEmpty = false) (as : List Act) :
    s.exchange (.arrive (.data bytes false) :: as) =
      (({ s with credit := 0 } : Response).exchange as).after [.data bytes false] := by
  have hact : s.act (.arrive (.data bytes false)) = _ := s.onData_at_once hx he hb
  rw [exchange_unfinished (by rw [hact]; rfl), hact]

theorem exchange_trailers (hx : s.explicit = false) (he : s.error = none) (block : Headers) :
    (s.exchange [.arrive (.trailers block)]).events = [.trailers block, .complete] ∧
      (s.exchange [.arrive (.trailers block)]).disposition.isFinal = true := by
  have hact : s.act (.arrive (.trailers block)) = _ := s.onTrailers_at_once hx he block
  rw [exchange_final (by rw [hact]; rfl), hact]
  exact ⟨rfl, rfl⟩

end Response

/-! ### What is sent and what comes back -/

/-- A part of a request as it is sent, headers with the cluster chosen for them. -/
inductive Sent
  | headers (block : Headers) (cluster : String) (last : Bool)
  | data (bytes : Bytes) (last : Bool)
  | trailers (block : Headers)

namespace Sent

/-- The send ends the request. -/
def ends : Sent → Bool
  | headers _ _ last | data _ last => last
  | trailers _ => true

/-- The headers that are sent, with their cluster. -/
def block? : Sent → Option (Headers × String)
  | headers block cluster _ => some (block, cluster)
  | _ => none

/-- The bytes that are sent. -/
def bytes : Sent → Bytes
  | data bytes _ => bytes
  | _ => []

end Sent

/-- What an operation sends, if it sends a part of a request. -/
def Operation.sent? (network : Network) (alternate : Bool) : Operation → Option Sent
  | sendHeaders _ block last =>
    some (.headers block (clusterFor block.scheme? block.protocolHint network alternate) last)
  | sendData _ bytes last => some (.data bytes last)
  | sendTrailers _ block => some (.trailers block)
  | _ => none

theorem Operation.sends_iff (network : Network) (alternate : Bool) (op : Operation) :
    op.sends = true ↔ ∃ x, op.sent? network alternate = some x := by
  cases op with
  | sendHeaders _ _ _ | sendData _ _ _ | sendTrailers _ _ => exact ⟨fun _ => ⟨_, rfl⟩, fun _ => rfl⟩
  | start _ | cancel _ | resume _ _ | onHeaders _ _ _ | onData _ _ _ | onTrailers _ _
  | onReset _ _ | sweep => exact ⟨(fun h => by cases h), fun ⟨_, h⟩ => by cases h⟩

theorem Operation.handle?_of_sends {op : Operation} (h : op.sends = true) :
    ∃ k, op.handle? = some k := by
  cases op with
  | sendHeaders _ _ _ | sendData _ _ _ | sendTrailers _ _ => exact ⟨_, rfl⟩
  | start _ | cancel _ | resume _ _ | onHeaders _ _ _ | onData _ _ _ | onTrailers _ _
  | onReset _ _ | sweep => cases h

namespace Loopback

/-- What the object takes in with a call. -/
def noted (r : Loopback) : RequestCall → Loopback
  | .headers block _ =>
    { r with cluster := block.get? Headers.clusterName, errorCode := block.get? errorName }
  | .data bytes _ => { r with body := r.body ++ bytes }
  | .trailers _ | .details _ | .reset _ => r

theorem respond_eq (r : Loopback) :
    r.respond = ({ r with finished := true }, if r.finished then [] else r.answer) := by
  unfold respond
  split
  · rename_i hfinished
    rw [← hfinished]
  · rfl

theorem call_eq (r : Loopback) (c : RequestCall) :
    r.call c = ({ r.noted c with finished := r.finished || c.ends || c.isReset },
      if c.ends && !r.finished then (r.noted c).answer else []) := by
  have hends (t : Loopback) (last : Bool) : (if last then t.respond else (t, [])) =
      ({ t with finished := t.finished || last || false },
        if last && !t.finished then t.answer else []) := by
    cases last with
    | true =>
      rw [if_pos rfl, respond_eq]
      cases t.finished <;> simp
    | false => simp
  cases c with
  | headers block last => exact hends (r.noted (.headers block last)) last
  | data bytes last => exact hends (r.noted (.data bytes last)) last
  | trailers block => exact hends r true
  | details text => simp [Loopback.call, noted, RequestCall.ends, RequestCall.isReset]
  | reset reason => simp [Loopback.call, noted, RequestCall.ends, RequestCall.isReset]

/-- The last headers of a request, with their cluster. -/
def lastHeaders? (xs : List Sent) : Option (Headers × String) :=
  (xs.filterMap Sent.block?).getLast?

/-- What the application hears of a request, up to its end: an error if the last
headers ask for one, else the cluster of the last headers, the body if there is
one, and a trailer. A request that has not ended is not answered. -/
def echo (xs : List Sent) : List Event :=
  if xs.any Sent.ends then
    let request := upTo Sent.ends xs
    match (lastHeaders? request).bind fun e => e.1.get? "x-loopback-error" with
    | some code => [.error ⟨StreamError.readCode code, some "loopback error requested", 1⟩]
    | none =>
      let cluster := match lastHeaders? request with
        | some (_, cluster) => [("x-loopback-cluster", cluster)]
        | none => []
      let body := request.flatMap Sent.bytes
      .headers (.ofList ((":status", "200") :: cluster)) false
        :: (if body.isEmpty then [] else [.data body false])
        ++ [.trailers (.ofList [("x-loopback-trailer", "done")]), .complete]
  else []

/-- The request object once a part of the request has come in. -/
def take (r : Loopback) : Sent → Loopback
  | .headers block cluster _ =>
    { r with cluster := some cluster, errorCode := block.get? errorName }
  | .data bytes _ => { r with body := r.body ++ bytes }
  | .trailers _ => r

/-- The request object of a request that was sent so far. -/
def gather (xs : List Sent) : Loopback := xs.foldl take {}

theorem gather_snoc (xs : List Sent) (x : Sent) : gather (xs ++ [x]) = (gather xs).take x := by
  unfold gather
  rw [List.foldl_append]
  rfl

theorem lastHeaders?_snoc (xs : List Sent) (x : Sent) :
    lastHeaders? (xs ++ [x]) = x.block?.or (lastHeaders? xs) := by
  unfold lastHeaders?
  rw [List.filterMap_append, List.getLast?_append]
  cases x <;> rfl

/-- A request object knows the last headers and the bytes so far, and has not
answered. -/
theorem gather_eq (xs : List Sent) :
    gather xs = { cluster := (lastHeaders? xs).map Prod.snd
                  errorCode := (lastHeaders? xs).bind fun e => e.1.get? errorName
                  body := xs.flatMap Sent.bytes } := by
  induction xs using List.reverseRecOn with
  | nil => rfl
  | append_singleton xs x ih =>
    rw [gather_snoc, ih, lastHeaders?_snoc, List.flatMap_append]
    cases x with
    | headers block cluster last => simp [take, Sent.block?, Sent.bytes]
    | data bytes last => simp [take, Sent.block?, Sent.bytes]
    | trailers block => simp [take, Sent.block?, Sent.bytes]

/-- A call takes in what was sent, and answers once this ends the request. -/
theorem call_of_sent {op : Operation} {network : Network} {alternate : Bool} {x : Sent}
    {call : RequestCall} (hx : op.sent? network alternate = some x)
    (hcall : op.call? network alternate = some call) {r : Loopback} (hr : r.finished = false) :
    op.endsRequest = x.ends ∧
      r.call call = if x.ends then ({ r.take x with finished := true }, (r.take x).answer)
        else (r.take x, []) := by
  have hrespond (t : Loopback) (ht : t.finished = false) :
      t.respond = ({ t with finished := true }, t.answer) := by
    rw [respond_eq, ht]
    rfl
  cases op with
  | sendHeaders h block last =>
    cases hx
    cases hcall
    let cluster := clusterFor block.scheme? block.protocolHint network alternate
    let t := r.take (.headers block cluster last)
    have htake : r.call (.headers (block.routed network alternate) last) =
        if last then t.respond else (t, []) := by
      unfold Loopback.call
      dsimp only
      rw [Headers.get?_cluster_routed, Headers.get?_error_routed]
      rfl
    exact ⟨rfl, htake.trans (by rw [hrespond t hr]; rfl)⟩
  | sendData h bytes last =>
    cases hx
    cases hcall
    let t := r.take (.data bytes last)
    have htake : r.call (.data bytes last) = if last then t.respond else (t, []) := rfl
    exact ⟨rfl, htake.trans (by rw [hrespond t hr]; rfl)⟩
  | sendTrailers h block =>
    cases hx
    cases hcall
    exact ⟨rfl, hrespond r hr⟩
  | start _ | cancel _ | resume _ _ | onHeaders _ _ _ | onData _ _ _ | onTrailers _ _
  | onReset _ _ | sweep => cases hx

/-- The marked response of a request that asks for an error reads as that error. -/
theorem ofHeaders?_marked (code : String) :
    StreamError.ofHeaders? (.ofList [(Headers.statusName, "503"), (StreamError.codeName, code),
        (StreamError.messageName, errorMessage), (StreamError.attemptsName, "1")]) =
      some ⟨StreamError.readCode code, some errorMessage, 1⟩ := by
  have hcode : Text.alike (Text.lower Headers.statusName) StreamError.codeName = false := by decide
  have hmessage : Text.alike (Text.lower Headers.statusName) StreamError.messageName = false ∧
      Text.alike (Text.lower StreamError.codeName) StreamError.messageName = false := by decide
  have hattempts : Text.alike (Text.lower Headers.statusName) StreamError.attemptsName = false ∧
      Text.alike (Text.lower StreamError.codeName) StreamError.attemptsName = false ∧
      Text.alike (Text.lower StreamError.messageName) StreamError.attemptsName = false := by decide
  have hself : Text.alike (Text.lower StreamError.codeName) StreamError.codeName = true ∧
      Text.alike (Text.lower StreamError.messageName) StreamError.messageName = true ∧
      Text.alike (Text.lower StreamError.attemptsName) StreamError.attemptsName = true := by decide
  have hone : StreamError.readAttempts (some "1") = 1 := by decide
  unfold StreamError.ofHeaders?
  simp only [Headers.get?_ofList, List.find?_cons, hcode, hmessage, hattempts, hself,
    Option.map_some, hone]

/-- No other answer of the loopback is marked as an error. -/
theorem ofHeaders?_unmarked (cluster : List (String × String))
    (hcluster : ∀ e ∈ cluster, e.1 = clusterName) :
    StreamError.ofHeaders? (.ofList ((Headers.statusName, "200") :: cluster)) = none := by
  have hstatus : Text.alike (Text.lower Headers.statusName) StreamError.codeName = false := by
    decide
  have hname : Text.alike (Text.lower clusterName) StreamError.codeName = false := by decide
  have hnone :
      cluster.find? (fun f => Text.alike (Text.lower f.1) StreamError.codeName) = none := by
    rw [List.find?_eq_none]
    intro e he
    rw [hcluster e he, hname]
    exact Bool.false_ne_true
  have hget : (Headers.ofList ((Headers.statusName, "200") :: cluster)).get? StreamError.codeName =
      none := by
    rw [Headers.get?_ofList, List.find?_cons, hstatus, hnone]
    rfl
  unfold StreamError.ofHeaders?
  rw [hget]
  rfl

/-- The events that the response side makes of an answer. -/
def echoed (r : Loopback) : List Event :=
  match r.errorCode with
  | some code => [.error ⟨StreamError.readCode code, some errorMessage, 1⟩]
  | none =>
    let cluster := match r.cluster with
      | some name => [(clusterName, name)]
      | none => []
    .headers (.ofList ((Headers.statusName, "200") :: cluster)) false
      :: (if r.body.isEmpty then [] else [.data r.body false])
      ++ [.trailers (.ofList [(trailerName, "done")]), .complete]

theorem echo_eq {xs : List Sent} (hends : xs.any Sent.ends = true) :
    echo xs = (gather (upTo Sent.ends xs)).echoed := by
  unfold echo
  rw [if_pos hends, gather_eq]
  generalize upTo Sent.ends xs = request
  unfold echoed
  dsimp only
  cases lastHeaders? request with
  | none => rfl
  | some e =>
    dsimp only [Option.bind_some]
    cases hcode : e.1.get? errorName with
    | some code =>
      have hcode' : e.1.get? "x-loopback-error" = some code := hcode
      rw [hcode']
      rfl
    | none =>
      have hcode' : e.1.get? "x-loopback-error" = none := hcode
      rw [hcode']
      rfl

/-- Without flow control the response side makes these events of an answer, and
ends with them. -/
theorem exchange_answer (r : Loopback) (high : Nat) :
    let s : Response := { explicit := false, high := high }
    (s.exchange (r.answer.map .arrive)).events = r.echoed ∧
      (s.exchange (r.answer.map .arrive)).disposition.isFinal = true := by
  intro s
  unfold answer echoed
  cases r.errorCode with
  | some code =>
    have hfail : s.act (.arrive (.headers (.ofList [(Headers.statusName, "503"),
        (StreamError.codeName, code), (StreamError.messageName, errorMessage),
        (StreamError.attemptsName, "1")]) true)) =
        Response.deliverError { s with
          endReceived := true
          error := some ⟨StreamError.readCode code, some errorMessage, 1⟩ } := by
      unfold Response.act Response.onHeaders
      dsimp only
      rw [ofHeaders?_marked code]
      rfl
    rw [List.map_cons, Response.exchange_final (by rw [hfail]; rfl), hfail]
    exact ⟨rfl, rfl⟩
  | none =>
    have hcluster : ∀ e ∈ (match r.cluster with
        | some name => [(clusterName, name)]
        | none => []), e.1 = clusterName := by
      intro e he
      cases hc : r.cluster with
      | some name =>
        rw [hc] at he
        rw [List.mem_singleton.mp he]
      | none =>
        rw [hc] at he
        cases he
    have hunmarked := ofHeaders?_unmarked _ hcluster
    dsimp only
    generalize Headers.ofList ((Headers.statusName, "200") :: _) = block at hunmarked ⊢
    generalize Headers.ofList [(trailerName, "done")] = trailers
    rw [List.cons_append, List.map_cons, Response.exchange_headers s hunmarked]
    generalize ht : ({ s with success := block.succeeds, headersForwarded := true } : Response) = t
    have hx : t.explicit = false := by rw [← ht]
    have he : t.error = none := by rw [← ht]
    unfold Response.Reply.after
    cases hbody : r.body.isEmpty with
    | true =>
      obtain ⟨hevents, hfinal⟩ := Response.exchange_trailers hx he trailers
      simp [hevents, hfinal]
    | false =>
      obtain ⟨hevents, hfinal⟩ :=
        Response.exchange_trailers (s := { t with credit := 0 }) hx he trailers
      simp [Response.exchange_data hx he hbody, Response.Reply.after, hevents, hfinal]

/-- No answer of the loopback has a reset in it. -/
theorem call_no_reset (r : Loopback) (call : RequestCall) {p : ResponsePart}
    (hp : p ∈ (r.call call).2) : p.isReset = false := by
  have hanswer (t : Loopback) (ht : p ∈ t.answer) : p.isReset = false := by
    unfold answer at ht
    split at ht
    · rw [List.mem_singleton.mp ht]
      rfl
    · rcases List.mem_append.mp ht with ht | ht
      · rcases List.mem_cons.mp ht with rfl | ht
        · rfl
        · split at ht
          · cases ht
          · rw [List.mem_singleton.mp ht]
            rfl
      · rw [List.mem_singleton.mp ht]
        rfl
  rw [call_eq] at hp
  dsimp only at hp
  split at hp
  · exact hanswer _ hp
  · cases hp

end Loopback

theorem upTo_append_of_any {α : Type} {q : α → Bool} {l : List α} (h : l.any q = true)
    (more : List α) : upTo q (l ++ more) = upTo q l := by
  induction l with
  | nil => cases h
  | cons a l ih =>
    rw [List.cons_append]
    unfold upTo
    by_cases ha : q a = true
    · rw [if_pos ha, if_pos ha]
    · rw [List.any_cons, Bool.or_eq_true] at h
      rw [if_neg ha, if_neg ha, ih (h.resolve_left ha)]

theorem upTo_snoc {α : Type} {q : α → Bool} {l : List α} (h : l.any q = false) (a : α) :
    upTo q (l ++ [a]) = l ++ [a] := by
  induction l with
  | nil => by_cases ha : q a = true <;> simp [upTo, ha]
  | cons b l ih =>
    rw [List.any_cons, Bool.or_eq_false_iff] at h
    rw [List.cons_append, upTo, if_neg (by simp [h.1]), ih h.2]

/-- What is sent after the end of a request changes nothing. -/
theorem Loopback.echo_append {xs : List Sent} (h : xs.any Sent.ends = true) (more : List Sent) :
    echo (xs ++ more) = echo xs := by
  have hany : (xs ++ more).any Sent.ends = true := by rw [List.any_append, h, Bool.true_or]
  rw [echo_eq hany, echo_eq h, upTo_append_of_any h]

namespace Host

variable {v w : Host} {h : Handle}

/-- The stream of a handle takes in a request: its request object knows what was
sent so far, and nothing has come back. -/
structure Gathers (w : Host) (h : Handle) (s : Stream) (xs : List Sent) : Prop where
  entry : w.client.entry h = some (.opened, s)
  goesOn : s.localClosed = false
  fresh : ∃ high, s.response = { explicit := w.client.explicit, high := high }
  request : w.pipeline.requests.find? s.id.serial = some (Loopback.gather xs)

/-- A stream that is started has sent nothing. -/
theorem gathers_start (hw : w.Listens) (hanswers : w.pipeline.answers = true)
    (he : w.client.entry h = none) :
    Gathers (w.does (.start h)) h (w.client.fresh h) [] ∧
      (w.does (.start h)).intake = w.intake ∧ (w.does (.start h)).notes = w.notes ∧
      (w.does (.start h)).client.draw = w.client.draw := by
  obtain ⟨d, -, hputs, heq⟩ := does_started hw he
  rw [heq]
  have hrequest : (w.pipeline.create ⟨h, w.client.nextSerial⟩).requests.find?
      w.client.nextSerial = some (Loopback.gather []) := by
    unfold Pipeline.create
    dsimp only
    rw [hanswers, if_pos rfl, Dict.find?_insert, if_pos rfl]
    rfl
  have hfresh : ∃ high, (w.client.fresh h).response = { explicit := d.explicit, high := high } := by
    rw [hputs.explicit]
    exact ⟨_, rfl⟩
  have hdraw : d.draw = w.client.draw := by
    unfold Client.draw
    rw [← congrArg Client.draws hputs.rest]
  exact ⟨⟨(hputs.entry h).trans (if_pos rfl), rfl, hfresh, hrequest⟩, rfl, rfl, hdraw⟩

/-- A send on a stream that takes it reaches the request object, and what this
answers goes behind the queue. -/
theorem does_sent_on (hw : w.Listens) {s : Stream} {xs : List Sent} (hg : Gathers w h s xs)
    {op : Operation} (hop : op.handle? = some h) {x : Sent}
    (hx : op.sent? w.network w.client.draw = some x) :
    ∃ (u : Host) (r : Loopback) (parts : List ResponsePart),
      (r, parts) = (if x.ends then
        ({ Loopback.gather (xs ++ [x]) with finished := true },
          (Loopback.gather (xs ++ [x])).answer)
        else (Loopback.gather (xs ++ [x]), [])) ∧
      w.does op = u.push (parts.map (ResponsePart.task h)) ∧
      u.client.entry h = some (.opened, { s with localClosed := x.ends }) ∧
      u.client.explicit = w.client.explicit ∧
      u.pipeline.requests.find? s.id.serial = some r ∧
      u.intake = w.intake ∧ u.notes = w.notes := by
  have hsends : op.sends = true := (Operation.sends_iff _ _ op).mpr ⟨x, hx⟩
  obtain ⟨call, hcall⟩ := Operation.call?_of_sends hsends w.network w.client.draw
  have hfinished : (Loopback.gather xs).finished = false := by rw [Loopback.gather_eq]
  obtain ⟨hlast, hanswer⟩ := Loopback.call_of_sent hx hcall hfinished
  rw [← Loopback.gather_snoc] at hanswer
  obtain ⟨d, g, -, hputs, heq⟩ := does_sent hw hop hcall hg.entry hg.goesOn
  have hpipe : w.pipeline.call s.id call =
      ({ w.pipeline with requests :=
          w.pipeline.requests.insert s.id.serial ((Loopback.gather xs).call call).1 },
        ((Loopback.gather xs).call call).2) := by
    unfold Pipeline.call
    rw [hg.request]
  rw [hpipe] at heq
  have hentry : d.entry h = some (.opened, { s with localClosed := x.ends }) := by
    rw [hputs.entry, if_pos rfl, hlast]
  exact ⟨_, _, _, hanswer, heq, hentry, hputs.explicit,
    (Dict.find?_insert _ _ _ _).trans (if_pos rfl), rfl, rfl⟩

/-- A send that does not end the request adds to it. -/
theorem gathers_send (hw : w.Listens) {s : Stream} {xs : List Sent} (hg : Gathers w h s xs)
    {op : Operation} (hop : op.handle? = some h) {x : Sent}
    (hx : op.sent? w.network w.client.draw = some x) (hends : x.ends = false) :
    Gathers (w.does op) h { s with localClosed := x.ends } (xs ++ [x]) ∧
      (w.does op).intake.pending 0 = w.intake.pending 0 ∧ (w.does op).notes = w.notes := by
  obtain ⟨u, r, parts, hr, hu, hentry, hexplicit, hrequest, hintake, hnotes⟩ :=
    does_sent_on hw hg hop hx
  rw [hends, if_neg Bool.false_ne_true] at hr
  cases hr
  obtain ⟨high, hfresh⟩ := hg.fresh
  have hpending : (u.push []).intake.pending 0 = w.intake.pending 0 := by
    rw [pending_push, List.append_nil, hintake]
  rw [hu]
  have hstill : ∃ n, s.response = { explicit := u.client.explicit, high := n } :=
    ⟨high, hfresh.trans (by rw [← hexplicit])⟩
  exact ⟨⟨hentry, hends, hstill, hrequest⟩, hpending, hnotes⟩

/-- A send that ends the request puts the answer behind the queue. -/
theorem answers_send (hw : w.Listens) {s : Stream} {xs : List Sent} (hg : Gathers w h s xs)
    {op : Operation} (hop : op.handle? = some h) {x : Sent}
    (hx : op.sent? w.network w.client.draw = some x) (hends : x.ends = true) :
    (w.does op).client.entry h = some (.opened, { s with localClosed := true }) ∧
      (w.does op).intake.pending 0 = w.intake.pending 0 ++
        (Loopback.gather (xs ++ [x])).answer.map (ResponsePart.task h) ∧
      (w.does op).notes = w.notes := by
  obtain ⟨u, r, parts, hr, hu, hentry, -, -, hintake, hnotes⟩ := does_sent_on hw hg hop hx
  rw [hends, if_pos rfl] at hr
  cases hr
  rw [hends] at hentry
  rw [hu, pending_push, hintake]
  exact ⟨hentry, rfl, hnotes⟩

theorem handle?_part (p : ResponsePart) (h : Handle) : (p.operation h).handle? = some h := by
  cases p <;> rfl

theorem part_not_start (p : ResponsePart) (h k : Handle) : p.operation h ≠ .start k := by
  cases p <;> exact Operation.noConfusion

theorem act?_part (p : ResponsePart) (h : Handle) (explicit : Bool) :
    (p.operation h).act? explicit = some (.arrive p) := by
  cases p <;> rfl

theorem calls_part {p : ResponsePart} (hp : p.isReset = false) : (Act.arrive p).calls = [] := by
  cases p with
  | headers _ _ | data _ _ | trailers _ => rfl
  | reset _ => cases hp

/-- A host over the loopback, without flow control and with applications that
only listen: what waits are parts of responses, and none is a reset. -/
structure Calm (w : Host) : Prop extends Listens w where
  implicit : w.client.explicit = false
  answers : w.pipeline.answers = true
  parts : ∀ t ∈ w.intake.pending 0, ∃ k p, t = ResponsePart.task k p ∧ p.isReset = false

theorem Plays.calm {op : Operation} (hw : w.Calm) (hv : Plays w op v) : v.Calm := by
  have hlistens := hv.listens hw.toListens
  cases hv with
  | idle => exact hw
  | started _ _ _ hp =>
    refine ⟨hlistens, hp.explicit.trans hw.implicit, ?_, hw.parts⟩
    unfold Pipeline.create
    exact hw.answers
  | @sent k s _ _ _ call _ _ _ hp =>
    refine ⟨hlistens, hp.explicit.trans hw.implicit, ?_, fun t ht => ?_⟩
    · show (w.pipeline.call s.id call).1.answers = true
      unfold Pipeline.call
      split <;> exact hw.answers
    · rw [pending_push] at ht
      rcases List.mem_append.mp ht with ht | ht
      · exact hw.parts t ht
      · obtain ⟨p, hp, rfl⟩ := List.mem_map.mp ht
        refine ⟨k, p, rfl, ?_⟩
        unfold Pipeline.call at hp
        split at hp
        · cases hp
        · exact Loopback.call_no_reset _ _ hp
  | answered _ _ _ _ hp => exact ⟨hlistens, hp.explicit.trans hw.implicit, hw.answers, hw.parts⟩

/-- Where the stream of a handle stands that was started, if it was, and sent on
so far, while some parts of its response wait: not yet started, gathering the
request, answered with what was heard and what waits, or gone. -/
inductive Stands (w : Host) (h : Handle) (parts : List ResponsePart) : Option (List Sent) → Prop
  | unstarted : w.client.entry h = none → parts = [] → heard h w.notes = [] → Stands w h parts none
  | gathering {s : Stream} {xs : List Sent} : Gathers w h s xs → xs.any Sent.ends = false →
      parts = [] → heard h w.notes = [] → Stands w h parts (some xs)
  | answering {b : Bucket} {s : Stream} {xs : List Sent} :
      w.client.entry h = some (b, s) → s.localClosed = true → xs.any Sent.ends = true →
      heard h w.notes ++ (s.response.exchange (parts.map .arrive)).events = Loopback.echo xs →
      (s.response.exchange (parts.map .arrive)).disposition.isFinal = true →
      Stands w h parts (some xs)
  | gone {xs : List Sent} : w.client.entry h = none → xs.any Sent.ends = true →
      heard h w.notes = Loopback.echo xs → Stands w h parts (some xs)

/-- Once nothing waits, the echo has been heard. -/
theorem Stands.heard_eq {xs : List Sent} (hs : Stands w h [] (some xs)) :
    heard h w.notes = Loopback.echo xs := by
  cases hs with
  | gathering _ hends _ hheard =>
    rw [hheard]
    unfold Loopback.echo
    rw [if_neg (by simp [hends])]
  | answering _ _ _ _ hfinal => cases hfinal
  | gone _ _ hheard => exact hheard

/-- A stage depends on the entry, the request object and what was heard only. -/
theorem Stands.of_eq {parts : List ResponsePart} {o : Option (List Sent)} (hs : Stands w h parts o)
    (hentry : v.client.entry h = w.client.entry h)
    (hexplicit : v.client.explicit = w.client.explicit)
    (hrequest : ∀ b s, w.client.entry h = some (b, s) →
      v.pipeline.requests.find? s.id.serial = w.pipeline.requests.find? s.id.serial)
    (hsame : heard h v.notes = heard h w.notes) : Stands v h parts o := by
  cases hs with
  | unstarted he hp hheard => exact .unstarted (hentry.trans he) hp (hsame.trans hheard)
  | gathering hg hends hp hheard =>
    obtain ⟨high, hfresh⟩ := hg.fresh
    have hgathers : Gathers v h _ _ := ⟨hentry.trans hg.entry, hg.goesOn,
      ⟨high, hfresh.trans (by rw [hexplicit])⟩, (hrequest _ _ hg.entry).trans hg.request⟩
    exact .gathering hgathers hends hp (hsame.trans hheard)
  | answering he hl hends hheard hfinal =>
    exact .answering (hentry.trans he) hl hends (hsame ▸ hheard) hfinal
  | gone he hends hheard => exact .gone (hentry.trans he) hends (hsame.trans hheard)

/-- What a handle does not see stays where it stands. -/
theorem Stands.same {o : Option (List Sent)} (hs : Stands w h (w.queued h) o) (hv : Same v w h) :
    Stands v h (v.queued h) o :=
  hv.queued ▸ hs.of_eq hv.entry hv.explicit hv.request hv.heard

theorem Same.swept (w : Host) (h : Handle) : Same w.swept w h :=
  ⟨rfl, rfl, fun _ _ _ => rfl, rfl, rfl⟩

theorem Calm.swept (hw : w.Calm) : w.swept.Calm :=
  ⟨hw.toListens.swept, hw.implicit, hw.answers, hw.parts⟩

theorem stands_start (hw : w.Calm) (hs : Stands w h (w.queued h) none) :
    Stands (w.does (.start h)) h ((w.does (.start h)).queued h) (some []) := by
  cases hs with
  | unstarted he hp hheard =>
    obtain ⟨hg, hintake, hnotes, -⟩ := gathers_start hw.toListens hw.answers he
    have hqueued : (w.does (.start h)).queued h = w.queued h := by
      unfold queued
      rw [hintake]
    exact .gathering hg rfl (hqueued.trans hp) (hnotes ▸ hheard)

/-- A send on a stream that takes none does nothing. -/
theorem does_unsent (hw : w.Calm) {op : Operation} (hop : op.handle? = some h)
    (hsends : op.sends = true)
    (hl : ∀ s, w.client.entry h = some (.opened, s) → s.localClosed = true) : w.does op = w :=
  does_idle (Client.advance_unsent hw.sound hop hsends hl)

/-- A send adds to what was sent, and is answered if it ends the request. -/
theorem stands_send (hw : w.Calm) {op : Operation} (hop : op.handle? = some h) {x : Sent}
    (hx : op.sent? w.network w.client.draw = some x) {o : Option (List Sent)}
    (hs : Stands w h (w.queued h) o) :
    Stands (w.does op) h ((w.does op).queued h) (o.map (· ++ [x])) := by
  have hsends : op.sends = true := (Operation.sends_iff _ _ op).mpr ⟨x, hx⟩
  have hmore {xs : List Sent} (hends : xs.any Sent.ends = true) :
      (xs ++ [x]).any Sent.ends = true := by rw [List.any_append, hends, Bool.true_or]
  cases hs with
  | unstarted he hp hheard =>
    rw [does_unsent hw hop hsends fun s hs => by rw [he] at hs; cases hs]
    exact .unstarted he hp hheard
  | gone he hends hheard =>
    rw [does_unsent hw hop hsends fun s hs => by rw [he] at hs; cases hs]
    exact .gone he (hmore hends) (hheard.trans (Loopback.echo_append hends [x]).symm)
  | answering he hl hends hheard hfinal =>
    rw [does_unsent hw hop hsends fun s hs => by rw [he] at hs; cases hs; exact hl]
    exact .answering he hl (hmore hends) (hheard.trans (Loopback.echo_append hends [x]).symm) hfinal
  | @gathering s xs hg hends hp hheard =>
    cases hxe : x.ends with
    | false =>
      obtain ⟨hnext, hpending, hnotes⟩ := gathers_send hw.toListens hg hop hx hxe
      have hqueued : (w.does op).queued h = w.queued h := by
        unfold queued
        rw [hpending]
      refine .gathering hnext ?_ (hqueued.trans hp) (hnotes ▸ hheard)
      rw [List.any_append, hends, List.any_cons, hxe]
      rfl
    | true =>
      have hany : (xs ++ [x]).any Sent.ends = true := by
        rw [List.any_append, List.any_cons, hxe, Bool.true_or, Bool.or_true]
      obtain ⟨hentry, hpending, hnotes⟩ := answers_send hw.toListens hg hop hx hxe
      have hqueued : (w.does op).queued h = _ := queued_append hpending
      obtain ⟨high, hfresh⟩ := hg.fresh
      rw [hw.implicit] at hfresh
      obtain ⟨hevents, hfinal⟩ := Loopback.exchange_answer (Loopback.gather (xs ++ [x])) high
      rw [hqueued, hp, List.nil_append]
      refine .answering hentry rfl hany ?_ ?_
      · show heard h (w.does op).notes ++ (s.response.exchange _).events = _
        rw [hnotes, hheard, hfresh, Loopback.echo_eq hany, upTo_snoc hends]
        exact hevents
      · show (s.response.exchange _).disposition.isFinal = true
        rw [hfresh]
        exact hfinal

/-- A part for a handle that is not registered is lost. -/
theorem does_lost (hw : w.Calm) (p : ResponsePart) (he : w.client.entry h = none) :
    w.does (p.operation h) = w :=
  does_idle (Client.advance_of_unregistered hw.sound.disjoint (handle?_part p h)
    (part_not_start p h h) he)

/-- A part that arrives is heard, or not needed any more. -/
theorem stands_part (hw : w.Calm) {p : ResponsePart} (hp : p.isReset = false)
    {parts : List ResponsePart} {o : Option (List Sent)} (hs : Stands w h (p :: parts) o) :
    Stands (w.does (p.operation h)) h parts o := by
  cases hs with
  | unstarted _ hnil _ => cases hnil
  | gathering _ _ hnil _ => cases hnil
  | gone he hends hheard =>
    rw [does_lost hw p he]
    exact .gone he hends hheard
  | @answering b s xs he hl hends hheard hfinal =>
    obtain ⟨d, live, -, hputs, heq⟩ :=
      does_answered hw.toListens (handle?_part p h) (act?_part p h _) (calls_part hp) he
    have hentry : d.entry h = Client.entryAfter b s (.arrive p) :=
      (hputs.entry h).trans (if_pos rfl)
    have hnotes (es : List Event) :
        heard h (w.notes ++ es.map (.told h)) = heard h w.notes ++ es := by
      rw [heard_append, heard_told]
    rw [heq]
    rw [List.map_cons] at hheard hfinal
    cases hlast : (s.response.act (.arrive p)).disposition.isFinal with
    | true =>
      rw [Response.exchange_final hlast] at hheard
      refine .gone (hentry.trans (if_pos hlast)) hends ?_
      exact (hnotes _).trans hheard
    | false =>
      rw [Response.exchange_unfinished hlast] at hheard hfinal
      refine .answering (hentry.trans (if_neg (by simp [hlast]))) hl hends ?_ hfinal
      show heard h (w.notes ++ _) ++ _ = _
      rw [hnotes, List.append_assoc]
      exact hheard

theorem intake_part (hw : w.Calm) {p : ResponsePart} (hp : p.isReset = false) (h : Handle) :
    (w.does (p.operation h)).intake = w.intake := by
  cases he : w.client.entry h with
  | none => rw [does_lost hw p he]
  | some e =>
    obtain ⟨d, live, -, -, heq⟩ := does_answered hw.toListens (handle?_part p h)
      (act?_part p h _) (calls_part hp) (b := e.1) (s := e.2) he
    rw [heq]

/-- A turn takes the first part off the queue, and every handle stays where it stands. -/
theorem stands_turn (hw : w.Calm) {t : Task} {i : Intake Task}
    (hnext : w.intake.next? 0 = some (t, i)) :
    ∃ u : Host, ({ w with intake := i } : Host).turn t = .ok u ∧ u.Calm ∧
      ∀ h o, Stands w h (w.queued h) o → Stands u h (u.queued h) o := by
  have hpending : w.intake.pending 0 = t :: i.pending 0 := (Intake.next?_eq_some hnext).1
  obtain ⟨k, p, rfl, hp⟩ := hw.parts t (hpending ▸ List.mem_cons_self)
  have hchannels : i.channels = [⟨i.pending 0, true⟩] := by
    have hq := hw.queue
    rw [hpending] at hq
    unfold Intake.next? at hnext
    rw [hq] at hnext
    exact congrArg (Intake.channels ∘ Prod.snd) (Option.some.inj hnext).symm
  let v : Host := { w with intake := i }
  have hv : v.Calm :=
    ⟨⟨hw.sound, hw.onThread, hw.silent, hchannels, hw.apart⟩, hw.implicit, hw.answers,
      fun t ht => hw.parts t (hpending ▸ List.mem_cons_of_mem _ ht)⟩
  have hplays : Plays v (p.operation k) (v.does (p.operation k)) := by
    have hcancel : p.operation k ≠ .cancel k := by cases p <;> exact Operation.noConfusion
    refine plays_does hv.toListens (handle?_part p k) hcancel fun a ha => ?_
    rw [act?_part, Option.some.injEq] at ha
    rw [← ha]
    exact calls_part hp
  refine ⟨_, turn_does hv.onThread (part_not_start p k), (hplays.calm hv).swept, fun h o hs => ?_⟩
  refine Stands.same ?_ (Same.swept _ h)
  have hkept (parts : List ResponsePart) (hs : Stands w h parts o) : Stands v h parts o :=
    hs.of_eq rfl rfl (fun _ _ _ => rfl) rfl
  by_cases hk : k = h
  · subst hk
    have hqueued : w.queued k = p :: v.queued k := by
      unfold queued
      rw [hpending, List.filterMap_cons, p.part?_task]
    rw [hqueued] at hs
    have hsame : (v.does (p.operation k)).queued k = v.queued k := by
      unfold queued
      rw [intake_part hv hp]
    rw [hsame]
    exact stands_part hv hp (hkept _ hs)
  · have hqueued : w.queued h = v.queued h := by
      unfold queued
      rw [hpending, List.filterMap_cons, p.part?_task_ne hk]
    rw [hqueued] at hs
    have hother : (p.operation k).handle? ≠ some h := by
      rw [handle?_part, Ne, Option.some.injEq]
      exact hk
    exact (hkept _ hs).same (hplays.frame hv.toListens hother)

end Host

namespace Session

open Host

variable {w : Host}

/-- Up to any number of turns. -/
theorem stands_runTurns (hw : w.Calm) (n : Nat) :
    (runTurns n w).1.Calm ∧ ∀ h o, Stands w h (w.queued h) o →
      Stands (runTurns n w).1 h ((runTurns n w).1.queued h) o := by
  induction n generalizing w with
  | zero => exact ⟨hw, fun _ _ hs => hs⟩
  | succ n ih =>
    unfold runTurns
    cases hnext : w.intake.next? 0 with
    | none => exact ⟨hw, fun _ _ hs => hs⟩
    | some next =>
      obtain ⟨u, hturn, hu, hstands⟩ := stands_turn hw hnext
      dsimp only
      rw [hturn]
      obtain ⟨hcalm, hrest⟩ := ih hu
      exact ⟨hcalm, fun h o hs => hrest h o (hstands h o hs)⟩

/-- Steps that start streams, with an application that listens or none, send parts
of requests, run turns, and report networks. -/
inductive Step.Drives : Step → Prop
  | listen (h : Handle) : Drives (.direct (.start h .silent))
  | start (h : Handle) : Drives (.direct (.operate (.start h)))
  | send {op : Operation} : op.sends = true → Drives (.direct (.operate op))
  | run (turns : Nat) : Drives (.run turns)
  | network (n : Network) : Drives (.network n)

/-- The handle that a step starts a stream under. -/
def Step.starts? : Step → Option Handle
  | .direct (.start h _) | .direct (.operate (.start h)) => some h
  | _ => none

/-- What a step sends on a handle. -/
def Step.sent? (h : Handle) (w : Host) : Step → Option Sent
  | .direct (.operate op) =>
    if op.handle? = some h then op.sent? w.network w.client.draw else none
  | _ => none

theorem Step.sent?_operate (h : Handle) (w : Host) (op : Operation) :
    Step.sent? h w (.direct (.operate op)) =
      if op.handle? = some h then op.sent? w.network w.client.draw else none := rfl

theorem Step.starts?_of_sends {op : Operation} (hop : op.sends = true) :
    Step.starts? (.direct (.operate op)) = none := by
  cases op with
  | start h => cases hop
  | sendHeaders _ _ _ | sendData _ _ _ | sendTrailers _ _ | cancel _ | resume _ _
  | onHeaders _ _ _ | onData _ _ _ | onTrailers _ _ | onReset _ _ | sweep => rfl

/-- What the steps of a session send on a handle, in order. -/
def sends (h : Handle) (w : Host) : List Step → List Sent
  | [] => []
  | step :: steps => (step.sent? h w).toList ++ sends h (perform w step).1 steps

theorem perform_operate (ht : w.onThread = true) (op : Operation) :
    (perform w (.direct (.operate op))).1 = w.does op := by
  unfold perform Host.run
  dsimp only
  cases hs : w.client.step w.network op with
  | ok r =>
    rw [operate_of_step ht hs]
    rfl
  | error f =>
    have hadv : w.client.advance ⟨op, w.network⟩ = (w.client, []) := by
      unfold Client.advance
      rw [hs]
    have hbound : ¬ (!w.onThread && op != .sweep) = true := by simp [ht]
    have hfault : w.operate op = .error f := by
      unfold Host.operate
      rw [if_neg hbound, hs]
    rw [hfault, does_idle hadv]
    rfl

/-- A start that tells of an application is a start, if the handle is free. -/
theorem perform_listen (ht : w.onThread = true) {h : Handle} (app : Application)
    (he : w.client.entry h = none) :
    (perform w (.direct (.start h app))).1 =
      ({ w with applications := w.applications.insert w.client.nextSerial app } : Host).does
        (.start h) := by
  unfold perform
  dsimp only
  rw [run_start ht app he]

theorem perform_listen_taken (ht : w.onThread = true) {h : Handle} (app : Application)
    {e : Registry.Bucket × Stream} (he : w.client.entry h = some e) :
    (perform w (.direct (.start h app))).1 = w := by
  have hstep : w.client.step w.network (.start h) = _ := Client.start_registered he
  unfold perform Host.run Host.operate
  dsimp only
  rw [hstep, if_neg (by simp [ht])]
  rfl

/-- What a step does to the stages: they keep to their streams, the sends come to
them in order. -/
structure Carries (v w : Host) (step : Step) : Prop where
  calm : v.Calm
  started : ∀ h, step.starts? = some h → Stands w h (w.queued h) none →
    Stands v h (v.queued h) (some [])
  others : ∀ h o, step.starts? ≠ some h → Stands w h (w.queued h) o →
    Stands v h (v.queued h) (o.map (· ++ (step.sent? h w).toList))

theorem map_append_nil (o : Option (List Sent)) :
    o.map (· ++ (none : Option Sent).toList) = o := by cases o <;> simp

/-- A start, however it comes. -/
theorem carries_start {v : Host} (hv : v.Calm) {h : Handle} {step : Step}
    (hstep : step.starts? = some h) (hsent : ∀ k, step.sent? k w = none)
    (hkept : ∀ k o, Stands w k (w.queued k) o → Stands v k (v.queued k) o) :
    Carries (v.does (.start h)) w step := by
  have hplays := plays_start hv.toListens h
  refine ⟨hplays.calm hv, fun k hk hs => ?_, fun k o hk hs => ?_⟩
  · obtain rfl : h = k := Option.some.inj (hstep.symm.trans hk)
    exact stands_start hv (hkept _ _ hs)
  · rw [hsent, map_append_nil]
    exact (hkept _ _ hs).same (hplays.frame hv.toListens fun hop => hk (hstep.trans hop))

theorem carries_perform (hw : w.Calm) {step : Step} (hstep : step.Drives) :
    Carries (perform w step).1 w step := by
  cases hstep with
  | listen h =>
    cases he : w.client.entry h with
    | none =>
      rw [perform_listen hw.onThread _ he]
      have hlistens := hw.toListens.insert_silent w.client.nextSerial
      exact carries_start ⟨hlistens, hw.implicit, hw.answers, hw.parts⟩ rfl (fun _ => rfl)
        fun k o hs => hs.same ⟨rfl, rfl, fun _ _ _ => rfl, rfl, rfl⟩
    | some e =>
      rw [perform_listen_taken hw.onThread _ he]
      refine ⟨hw, fun k hk hs => ?_, fun k o _ hs => ?_⟩
      · cases hk
        cases hs with
        | unstarted hnone _ _ =>
          rw [he] at hnone
          cases hnone
      · rw [show Step.sent? k w _ = none from rfl, map_append_nil]
        exact hs
  | start h =>
    rw [perform_operate hw.onThread]
    refine carries_start hw rfl (fun k => ?_) fun k o hs => hs
    rw [Step.sent?_operate]
    split <;> rfl
  | @send op hsends =>
    rw [perform_operate hw.onThread]
    obtain ⟨h, hop⟩ := Operation.handle?_of_sends hsends
    have hplays := plays_send hw.toListens hop hsends
    refine ⟨hplays.calm hw, fun k hk => ?_, fun k o _ hs => ?_⟩
    · rw [Step.starts?_of_sends hsends] at hk
      cases hk
    rw [Step.sent?_operate]
    by_cases hk : op.handle? = some k
    · obtain ⟨x, hx⟩ := (Operation.sends_iff w.network w.client.draw op).mp hsends
      rw [if_pos hk, hx]
      exact stands_send hw hk hx hs
    · rw [if_neg hk, map_append_nil]
      exact hs.same (hplays.frame hw.toListens hk)
  | run turns =>
    obtain ⟨hcalm, hstands⟩ := stands_runTurns hw turns
    refine ⟨hcalm, (fun k hk => by cases hk), fun k o _ hs => ?_⟩
    rw [show Step.sent? k w _ = none from rfl, map_append_nil]
    exact hstands k o hs
  | network n =>
    refine ⟨⟨⟨hw.sound, hw.onThread, hw.silent, hw.queue, hw.apart⟩, hw.implicit, hw.answers,
      hw.parts⟩, (fun k hk => by cases hk), fun k o _ hs => ?_⟩
    rw [show Step.sent? k w _ = none from rfl, map_append_nil]
    exact hs.same ⟨rfl, rfl, fun _ _ _ => rfl, rfl, rfl⟩

/-- A whole session, as a stream sees it that none of its steps starts. -/
theorem stands_after {steps : List Step} (hsteps : ∀ s ∈ steps, s.Drives) (hw : w.Calm) :
    (after w steps).Calm ∧ ∀ h o, (∀ s ∈ steps, s.starts? ≠ some h) → Stands w h (w.queued h) o →
      Stands (after w steps) h ((after w steps).queued h) (o.map (· ++ sends h w steps)) := by
  induction steps generalizing w with
  | nil => exact ⟨hw, fun h o _ hs => by cases o <;> simpa [sends, after] using hs⟩
  | cons step steps ih =>
    have hfirst := carries_perform hw (hsteps step List.mem_cons_self)
    obtain ⟨hcalm, hrest⟩ := ih (fun s hs => hsteps s (List.mem_cons_of_mem _ hs)) hfirst.calm
    refine ⟨hcalm, fun h o hnot hs => ?_⟩
    have hnext := hfirst.others h o (hnot step List.mem_cons_self) hs
    have hlast := hrest h _ (fun s hs => hnot s (List.mem_cons_of_mem _ hs)) hnext
    have hsends : o.map (· ++ sends h w (step :: steps)) =
        (o.map (· ++ (step.sent? h w).toList)).map (· ++ sends h (perform w step).1 steps) := by
      rw [Option.map_map]
      exact congrArg (o.map ·) (funext fun xs => (List.append_assoc _ _ _).symm)
    rw [hsends]
    exact hlast

theorem calm_start {config : Config} (hconfig : config.flowControl.explicit = false)
    (draws : Draws) : (start config true true draws).Calm := by
  have hnone (h : Handle) : (start config true true draws).client.entry h = none := rfl
  have hapart {h k : Handle} {b b' : Registry.Bucket} {s t : Stream}
      (hs : (start config true true draws).client.entry h = some (b, s))
      (_ : (start config true true draws).client.entry k = some (b', t))
      (_ : s.id.serial = t.id.serial) : h = k := by
    rw [hnone] at hs
    cases hs
  exact ⟨⟨Client.sound_ofConfig config draws, rfl, (fun n app hn => by cases hn), rfl,
    hapart⟩, hconfig, rfl, fun t ht => by cases ht⟩

/-- Over the loopback and without flow control, each stream is told the echo of
what was sent on it since it started, once the queue is empty; sends and turns
may come in any order, on any number of streams. -/
theorem loopback_echoes (config : Config) (hconfig : config.flowControl.explicit = false)
    (draws : Draws) (steps : List Step) (hsteps : ∀ s ∈ steps, s.Drives)
    (honce : (steps.filterMap Step.starts?).Nodup)
    (hempty : (after (start config true true draws) steps).intake.pending 0 = [])
    (before : List Step) (step : Step) (later : List Step)
    (hsplit : steps = before ++ step :: later) (h : Handle) (hstep : step.starts? = some h) :
    heard h (after (start config true true draws) steps).notes =
      Loopback.echo
        (sends h (after (start config true true draws) (before ++ [step])) later) := by
  subst hsplit
  let first := start config true true draws
  have honly : (∀ s ∈ before, s.starts? ≠ some h) ∧ ∀ s ∈ later, s.starts? ≠ some h := by
    rw [List.filterMap_append, List.filterMap_cons_some hstep, List.perm_middle.nodup_iff,
      List.nodup_cons, List.mem_append] at honce
    exact ⟨fun s hs hh => honce.1 (.inl (List.mem_filterMap.mpr ⟨s, hs, hh⟩)),
      fun s hs hh => honce.1 (.inr (List.mem_filterMap.mpr ⟨s, hs, hh⟩))⟩
  have hbefore : ∀ s ∈ before, s.Drives := fun s hs => hsteps s (List.mem_append_left _ hs)
  have hlater : ∀ s ∈ later, s.Drives := fun s hs =>
    hsteps s (List.mem_append_right _ (List.mem_cons_of_mem _ hs))
  -- unstarted up to the step, started by it, and sent on afterwards
  obtain ⟨hcalm, hunstarted⟩ := stands_after hbefore (calm_start hconfig draws)
  have hnone := hunstarted h none honly.1 (.unstarted rfl rfl rfl)
  have hstarts := carries_perform hcalm
    (hsteps step (List.mem_append_right _ List.mem_cons_self))
  have hsome := hstarts.started h hstep hnone
  obtain ⟨-, hends⟩ := stands_after hlater hstarts.calm
  have hlast := hends h _ honly.2 hsome
  have hafter (xs ys : List Step) (w : Host) : after w (xs ++ ys) = after (after w xs) ys := by
    induction xs generalizing w with
    | nil => rfl
    | cons x xs ih => exact ih _
  rw [hafter] at hempty ⊢
  rw [hafter]
  have hnothing : (after (after first before) (step :: later)).queued h = [] := by
    unfold Host.queued
    rw [hempty]
    rfl
  have hheard : Stands (after (after first before) (step :: later)) h [] _ := hnothing ▸ hlast
  exact hheard.heard_eq

/-- Two streams in turns: the one is echoed, the other asks for an error. -/
def crossed : List Step :=
  [.direct (.start ⟨1⟩ .silent), .direct (.operate (.start ⟨2⟩)),
    .direct (.operate (.sendHeaders ⟨1⟩ (.ofList [(":scheme", "http")]) false)),
    .direct (.operate (.sendHeaders ⟨2⟩ (.ofList [("x-loopback-error", "4")]) false)),
    .direct (.operate (.sendData ⟨1⟩ [104, 105] true)), .run 1, .network .wlan,
    .direct (.operate (.sendTrailers ⟨2⟩ {})), .direct (.operate (.sendData ⟨1⟩ [33] true)), .run 9]

theorem loopback_echoes_crossed :
    heard ⟨1⟩ (after (start {} true true {}) crossed).notes =
        [.headers (.ofList [(":status", "200"), ("x-loopback-cluster", "base_clear")]) false,
          .data [104, 105] false, .trailers (.ofList [("x-loopback-trailer", "done")]),
          .complete] ∧
      heard ⟨2⟩ (after (start {} true true {}) crossed).notes =
        [.error ⟨.requestTimeout, some "loopback error requested", 1⟩] := by
  have hsteps : ∀ s ∈ crossed, s.Drives := by
    intro s hs
    simp only [crossed, List.mem_cons, List.not_mem_nil, or_false] at hs
    rcases hs with rfl | rfl | rfl | rfl | rfl | rfl | rfl | rfl | rfl | rfl
    · exact .listen _
    · exact .start _
    · exact .send rfl
    · exact .send rfl
    · exact .send rfl
    · exact .run _
    · exact .network _
    · exact .send rfl
    · exact .send rfl
    · exact .run _
  have honce : (crossed.filterMap Step.starts?).Nodup := by decide
  have hempty : (after (start {} true true {}) crossed).intake.pending 0 = [] := by decide +kernel
  have hecho := loopback_echoes {} rfl {} crossed hsteps honce hempty
  have hfirst := hecho [] _ _ rfl ⟨1⟩ rfl
  have hsecond := hecho [.direct (.start ⟨1⟩ .silent)] _ _ rfl ⟨2⟩ rfl
  exact ⟨hfirst.trans (by decide +kernel), hsecond.trans (by decide +kernel)⟩

end Session
end HttpExchange
