/-
# A response taken at the reader's pace

A reader that grants credit once after each event that asks for it, and a
response that comes all at once: headers, a body if there is one, trailers. Under
explicit flow control the reader gets the body in pieces of the credit, the last
one with the trailers; without it the body comes as it is.

What is yet to be passed on is known at any moment from what the response side
holds, the parts still to arrive, and the mode (`Response.Owes`), and there is a
grant out, or an event that asks for one, as long as it is not over.

Key definitions: `slices`, `Response.passed`, `Response.Owes`.
Key theorems: `slices_cons`, `Response.Owes.arrive`, `Response.Owes.grant`.
-/
import HttpExchange.Cli.Exchange
import HttpExchange.Proofs.Conservation
import HttpExchange.Proofs.Echo

namespace HttpExchange

/-! ### Pieces of a body -/

/-- Bytes cut into pieces of `c` bytes, the last one with what is left. -/
def slices (c : Nat) (bytes : Bytes) : List Bytes :=
  (List.range ((bytes.length + c - 1) / c)).map fun k => (bytes.drop (k * c)).take c

theorem slices_nil (c : Nat) : slices c [] = [] := by
  have hnone : (([] : Bytes).length + c - 1) / c = 0 := by
    rw [List.length_nil, Nat.zero_add]
    cases c with
    | zero => rfl
    | succ c => exact Nat.div_eq_of_lt (Nat.lt_succ_self c)
  unfold slices
  rw [hnone]
  rfl

theorem slices_cons {c : Nat} (hc : 0 < c) {bytes : Bytes} (hb : bytes ≠ []) :
    slices c bytes = bytes.take c :: slices c (bytes.drop c) := by
  have hlength : 0 < bytes.length := List.length_pos_iff.mpr hb
  have hcount : (bytes.length + c - 1) / c = ((bytes.drop c).length + c - 1) / c + 1 := by
    rw [List.length_drop]
    by_cases hlt : c ≤ bytes.length
    · have hsum : bytes.length + c - 1 = (bytes.length - c + c - 1) + c := by omega
      rw [hsum, Nat.add_div_right _ hc]
    · have hzero : bytes.length - c = 0 := by omega
      have hone : bytes.length + c - 1 = (bytes.length - 1) + c := by omega
      have hsmall : (bytes.length - 1) / c = 0 := Nat.div_eq_of_lt (by omega)
      have hnone : (0 + c - 1) / c = 0 := Nat.div_eq_of_lt (by omega)
      rw [hzero, hone, Nat.add_div_right _ hc, hsmall, hnone]
  unfold slices
  rw [hcount, List.range_succ_eq_map, List.map_cons, List.map_map]
  have hrest : ((fun k => (bytes.drop (k * c)).take c) ∘ Nat.succ) =
      fun k => ((bytes.drop c).drop (k * c)).take c := by
    funext k
    rw [List.drop_drop, Function.comp_apply, Nat.succ_mul, Nat.add_comm]
  rw [hrest, Nat.zero_mul, List.drop_zero]

/-- No more pieces than bytes. -/
theorem length_slices {c : Nat} (hc : 0 < c) (bytes : Bytes) :
    (slices c bytes).length ≤ bytes.length := by
  unfold slices
  rw [List.length_map, List.length_range]
  cases hl : bytes.length with
  | zero => exact Nat.le_of_eq (Nat.div_eq_of_lt (by omega))
  | succ n =>
    have hsum : n + 1 + c - 1 = n + c := by omega
    rw [hsum, Nat.add_div_right _ hc]
    exact Nat.succ_le_succ (Nat.div_le_self n c)

namespace Response

variable {s : Response} {explicit : Bool} {c : Nat}

/-! ### The response side under explicit flow control -/

/-- Data that comes without credit is held. -/
theorem onData_held (s : Response) (hx : s.explicit = true) (he : s.error = none)
    (hc : s.credit = 0) {bytes : Bytes} (hb : bytes.isEmpty = false) :
    s.onData bytes false = s.hold bytes := by
  have hreceive : s.receiveEnd false = s := rfl
  unfold onData
  dsimp only
  rw [hreceive, if_neg (by simp [he]), if_neg (by simp [hb]), if_neg (by simp [hx]),
    if_neg (by simp [hc])]

/-- Trailers that come without credit are held. -/
theorem onTrailers_held (s : Response) (hx : s.explicit = true) (he : s.error = none)
    (hc : s.credit = 0) (block : Headers) :
    s.onTrailers block = { state := { s with endReceived := true, trailers := some block } } := by
  have hreceive : s.receiveEnd true = { s with endReceived := true } := rfl
  unfold onTrailers
  dsimp only
  rw [hreceive, if_neg (by simp [he]), if_pos (by simp [hx, hc])]

/-! ### What is yet to come -/

/-- The events that ask for credit, where credit counts. -/
def credits (explicit : Bool) (es : List Event) : Nat :=
  if explicit then es.countP Event.wantsCredit else 0

theorem credits_append (explicit : Bool) (xs ys : List Event) :
    credits explicit (xs ++ ys) = credits explicit xs + credits explicit ys := by
  unfold credits
  split
  · exact List.countP_append
  · rfl

/-- What the application is told of a body: its pieces, or all of it. -/
def told (explicit : Bool) (c : Nat) (bytes : Bytes) : List Event :=
  if explicit then (slices c bytes).map (.data · false)
  else if bytes.isEmpty then [] else [.data bytes false]

/-- What the application is told after the headers. -/
def passed (explicit : Bool) (c : Nat) (bytes : Bytes) (trailers : Headers) : List Event :=
  told explicit c bytes ++ [.trailers trailers, .complete]

/-- The headers were passed on, some bytes wait, and no credit is left. -/
structure Rests (s : Response) (explicit : Bool) (bytes : Bytes) : Prop where
  mode : s.explicit = explicit
  credit : s.credit = 0
  error : s.error = none
  goesOn : s.endForwarded = false
  waiting : s.waiting = bytes

/-- What a response side has yet to pass on when some parts are still to arrive and
each event that asks for credit is answered with a grant of `c` bytes. The last
index counts such events and grants as are on their way. -/
inductive Owes (explicit : Bool) (c : Nat) :
    Response → List ResponsePart → List Event → Nat → Prop
  | whole {high : Nat} {block trailers : Headers} {bytes : Bytes} :
      StreamError.ofHeaders? block = none →
      Owes explicit c { explicit := explicit, high := high }
        (.headers block false :: (if bytes.isEmpty then [] else [.data bytes false]) ++
          [.trailers trailers])
        (.headers block false :: passed explicit c bytes trailers) 0
  | body {s : Response} {bytes : Bytes} {trailers : Headers} : Rests s explicit [] →
      bytes.isEmpty = false →
      Owes explicit c s [.data bytes false, .trailers trailers] (passed explicit c bytes trailers)
        (if explicit then 1 else 0)
  | tail {s : Response} {bytes : Bytes} {trailers : Headers} : Rests s explicit bytes →
      (explicit = false → bytes = []) →
      Owes explicit c s [.trailers trailers] (passed explicit c bytes trailers)
        (if explicit then 1 else 0)
  | rest {s : Response} {bytes : Bytes} {trailers : Headers} : Rests s true bytes →
      explicit = true → s.trailers = some trailers →
      Owes explicit c s [] (passed explicit c bytes trailers) 1

theorem told_nil (explicit : Bool) (c : Nat) : told explicit c [] = [] := by
  unfold told
  rw [slices_nil]
  cases explicit <;> rfl

theorem told_implicit (c : Nat) {bytes : Bytes} (hb : bytes.isEmpty = false) :
    told false c bytes = [.data bytes false] := by
  unfold told
  rw [if_neg Bool.false_ne_true, if_neg (by simp [hb])]

theorem told_explicit (hc : 0 < c) {bytes : Bytes} (hb : bytes ≠ []) :
    told true c bytes = .data (bytes.take c) false :: told true c (bytes.drop c) := by
  unfold told
  rw [if_pos rfl, if_pos rfl, slices_cons hc hb, List.map_cons]

section Steps

variable {rest : List Event} {tokens : Nat}

/-- What an act does to what is owed: it is all told, or some of it, and each event
that asks for credit is one more on its way. -/
inductive Yields (explicit : Bool) (c : Nat) (parts : List ResponsePart) (rest : List Event)
    (tokens : Nat) (r : Reply) : Prop
  | all : r.disposition.isFinal = true → r.events = rest → parts = [] →
      Yields explicit c parts rest tokens r
  | some {more : List Event} : r.disposition.isFinal = false → rest = r.events ++ more →
      Owes explicit c r.state parts more (tokens + credits explicit r.events) →
      Yields explicit c parts rest tokens r

/-- The headers arrive, with a body behind them or none. -/
theorem yields_headers {high : Nat} {block trailers : Headers} {bytes : Bytes}
    (hblock : StreamError.ofHeaders? block = none) :
    Yields explicit c ((if bytes.isEmpty then [] else [.data bytes false]) ++ [.trailers trailers])
      (.headers block false :: passed explicit c bytes trailers) 0
      (({ explicit := explicit, high := high } : Response).act
        (.arrive (.headers block false))) := by
  let t : Response :=
    { explicit := explicit, high := high, success := block.succeeds, headersForwarded := true }
  have hact : ({ explicit := explicit, high := high } : Response).act
      (.arrive (.headers block false)) = { state := t, events := [.headers block false] } :=
    onHeaders_unmarked _ hblock
  have hrests : Rests t explicit [] := ⟨rfl, rfl, rfl, rfl, rfl⟩
  have htokens : 0 + credits explicit [.headers block false] = if explicit then 1 else 0 := by
    cases explicit <;> rfl
  rw [hact]
  refine .some rfl rfl ?_
  rw [htokens]
  cases hb : bytes.isEmpty with
  | true =>
    obtain rfl : bytes = [] := List.isEmpty_iff.mp hb
    exact .tail hrests fun _ => rfl
  | false => exact .body hrests hb

theorem yields_data {bytes : Bytes} {trailers : Headers} (hs : Rests s explicit [])
    (hb : bytes.isEmpty = false) :
    Yields explicit c [.trailers trailers] (passed explicit c bytes trailers)
      (if explicit then 1 else 0) (s.act (.arrive (.data bytes false))) := by
  cases explicit with
  | true =>
    have hact : s.act (.arrive (.data bytes false)) = s.hold bytes :=
      s.onData_held hs.mode hs.error hs.credit hb
    obtain ⟨b, hstate, hwaiting⟩ := s.hold_eq bytes
    have hrests : Rests (s.hold bytes).state true bytes := by
      rw [hstate]
      exact ⟨hs.mode, hs.credit, hs.error, hs.goesOn, by rw [hwaiting, hs.waiting, List.nil_append]⟩
    rw [hact]
    exact .some rfl rfl (.tail hrests nofun)
  | false =>
    have hact : s.act (.arrive (.data bytes false)) = _ := s.onData_at_once hs.mode hs.error hb
    have hrests : Rests { s with credit := 0 } false [] :=
      ⟨hs.mode, rfl, hs.error, hs.goesOn, hs.waiting⟩
    have hpassed : passed false c bytes trailers =
        [.data bytes false] ++ passed false c [] trailers := by
      unfold passed
      rw [told_implicit c hb, told_nil, List.nil_append]
    rw [hact]
    exact .some rfl hpassed (.tail hrests fun _ => rfl)

theorem yields_trailers {bytes : Bytes} {trailers : Headers} (hs : Rests s explicit bytes)
    (hb : explicit = false → bytes = []) :
    Yields explicit c [] (passed explicit c bytes trailers) (if explicit then 1 else 0)
      (s.act (.arrive (.trailers trailers))) := by
  cases explicit with
  | true =>
    have hact : s.act (.arrive (.trailers trailers)) = _ :=
      s.onTrailers_held hs.mode hs.error hs.credit trailers
    rw [hact]
    exact .some rfl rfl (.rest ⟨hs.mode, hs.credit, hs.error, hs.goesOn, hs.waiting⟩ rfl rfl)
  | false =>
    have hact : s.act (.arrive (.trailers trailers)) = _ :=
      s.onTrailers_at_once hs.mode hs.error trailers
    have hpassed : passed false c bytes trailers = [.trailers trailers, .complete] := by
      unfold passed
      rw [hb rfl, told_nil, List.nil_append]
    rw [hact, hpassed]
    exact .all rfl rfl rfl

/-- A part that arrives. -/
theorem Owes.arrive {p : ResponsePart} {parts : List ResponsePart}
    (ho : Owes explicit c s (p :: parts) rest tokens) :
    p.isReset = false ∧ Yields explicit c parts rest tokens (s.act (.arrive p)) := by
  generalize hall : p :: parts = all at ho
  cases ho with
  | whole hblock =>
    cases hall
    exact ⟨rfl, yields_headers hblock⟩
  | body hs hb =>
    cases hall
    exact ⟨rfl, yields_data hs hb⟩
  | tail hs hb =>
    cases hall
    exact ⟨rfl, yields_trailers hs hb⟩
  | rest _ _ _ => cases hall

/-- Once all parts have arrived, one grant is on its way or asked for; and what it
does. -/
theorem Owes.grant (ho : Owes explicit c s [] rest tokens) :
    explicit = true ∧ tokens = 1 ∧ (0 < c → Yields explicit c [] rest 0 (s.act (.grant c))) := by
  generalize hnone : ([] : List ResponsePart) = parts at ho
  cases ho with
  | whole _ => cases hnone
  | body _ _ => cases hnone
  | tail _ _ => cases hnone
  | @rest s bytes trailers hs hx ht =>
    subst hx
    refine ⟨rfl, rfl, fun hc => ?_⟩
    have hspec : OnResume s c (s.act (.grant c)) := onResume_spec hs.goesOn c
    have hpending : s.endPending = false := by
      unfold endPending
      rw [ht]
      exact Bool.and_false _
    generalize s.act (.grant c) = r at hspec ⊢
    cases hspec with
    | finished _ hend _ =>
      rw [hpending] at hend
      cases hend
    | failed _ _ hno _ _ =>
      rw [ht] at hno
      cases hno
    | drained _ _ hno _ _ _ =>
      rw [ht] at hno
      cases hno
    | partly b hmore hwaiting =>
      have hne : bytes ≠ [] := by
        rintro rfl
        rw [hs.waiting] at hmore
        exact Nat.not_lt_zero _ hmore
      have hrests : Rests { s with credit := 0, buffer := b } true (bytes.drop c) :=
        ⟨hs.mode, rfl, hs.error, hs.goesOn, hwaiting.trans (by rw [hs.waiting])⟩
      have hpassed : passed true c bytes trailers =
          [.data (bytes.take c) false] ++ passed true c (bytes.drop c) trailers := by
        unfold passed
        rw [told_explicit hc hne]
        rfl
      rw [hs.waiting]
      exact .some rfl hpassed (.rest hrests rfl ht)
    | @trailers _ block hblock hlength =>
      obtain rfl : trailers = block := Option.some.inj (ht.symm.trans hblock)
      refine .all rfl ?_ rfl
      show s.dataOwed ++ [.trailers trailers, .complete] = passed true c bytes trailers
      rw [hs.waiting] at hlength
      have htold : s.dataOwed = told true c bytes := by
        unfold dataOwed
        rw [hs.waiting]
        by_cases hb : bytes = []
        · rw [if_pos hb, hb, told_nil]
        · rw [if_neg hb, told_explicit hc hb, List.take_of_length_le hlength,
            List.drop_eq_nil_of_le hlength, told_nil]
      rw [htold]
      rfl

end Steps

end Response
end HttpExchange
