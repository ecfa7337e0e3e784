/-
# Flow control does not change a response

A response that is well formed is told the same with flow control as without:
the same headers, the same bytes, the same trailers, the same ending, counted in
the same way. Only the data may be cut into other frames.

The proof runs a response side with flow control (`s`) beside one without (`i`).
Until the response ends, `s` owes the data that waits and is otherwise what `i`
is (`Response.Alike`). After that `i` is done and `s` owes the rest of what `i`
told (`Response.Due`), which nothing but grants can change.

Key definitions: `pieces`, `WellFormed`, `Response.Alike`, `Response.Due`,
`Client.Takes`.
Key theorems: `Response.exchange_due`, `Response.exchange_wellFormed`,
`Client.flow_control_transparent`.
-/
import HttpExchange.Proofs.Exchange
import HttpExchange.Proofs.History

namespace HttpExchange

/-! ### Logs, however their data is cut -/

/-- What an application is told, with data cut into single bytes. -/
inductive Piece
  | headers (block : Headers) (last : Bool)
  | byte (b : UInt8)
  /-- The end of the response, carried by data. -/
  | dataEnd
  | trailers (block : Headers)
  | error (e : StreamError)
  | complete
  | cancel
  deriving DecidableEq, Repr

/-- The pieces of an event. -/
def Event.pieces : Event → List Piece
  | headers block last => [.headers block last]
  | data bytes last => bytes.map .byte ++ if last then [.dataEnd] else []
  | trailers block => [.trailers block]
  | error e => [.error e]
  | complete => [.complete]
  | cancel => [.cancel]

/-- The pieces of a log. -/
def pieces (es : List Event) : List Piece := es.flatMap Event.pieces

@[simp] theorem pieces_nil : pieces [] = [] := rfl

@[simp] theorem pieces_append (es fs : List Event) : pieces (es ++ fs) = pieces es ++ pieces fs :=
  List.flatMap_append

theorem pieces_cons (e : Event) (es : List Event) : pieces (e :: es) = e.pieces ++ pieces es :=
  List.flatMap_cons

/-- Data may be cut anywhere. -/
theorem pieces_data (xs ys : Bytes) (last : Bool) (es : List Event) :
    pieces (.data (xs ++ ys) last :: es) = pieces [.data xs false] ++ pieces (.data ys last :: es) := by
  simp [pieces_cons, Event.pieces]

/-! ### Well-formed responses -/

/-- Nothing but resets. -/
def Resets (ps : List ResponsePart) : Prop := ∀ p ∈ ps, p.isReset

/-- Data frames up to the end or a reset, and resets from there on. -/
inductive Body : List ResponsePart → Prop
  | data (bytes : Bytes) {ps : List ResponsePart} : Body ps → Body (.data bytes false :: ps)
  | dataEnd (bytes : Bytes) {ps : List ResponsePart} : Resets ps → Body (.data bytes true :: ps)
  | trailers (block : Headers) {ps : List ResponsePart} : Resets ps → Body (.trailers block :: ps)
  | reset (reason : ResetReason) {ps : List ResponsePart} : Resets ps → Body (.reset reason :: ps)

/-- One header block, marked or not, and then a body; or a reset instead. -/
inductive WellFormed : List ResponsePart → Prop
  | headers (block : Headers) {ps : List ResponsePart} : Body ps →
      WellFormed (.headers block false :: ps)
  | headersEnd (block : Headers) {ps : List ResponsePart} : Resets ps →
      WellFormed (.headers block true :: ps)
  | reset (reason : ResetReason) {ps : List ResponsePart} : Resets ps →
      WellFormed (.reset reason :: ps)

namespace Response

/-! ### After the end -/

/-- The response has ended, or was reset; the events and the disposition are
what the application has still to be given. -/
inductive Due (s : Response) : List Event → Disposition → Prop
  | data : s.endReceived = true → s.trailers = none →
      Due s [.data s.waiting true, .complete] (.completed s.success)
  | trailers {block : Headers} : s.endReceived = true → s.trailers = some block →
      Due s (s.dataOwed ++ [.trailers block, .complete]) (.completed s.success)
  | error {e : StreamError} : s.endReceived = false → s.trailers = none → s.errorDeferred = true →
      s.error = some e → Due s (s.dataOwed ++ [.error e]) .failed

/-- A reply gives all that is due, or some of it. -/
inductive Pays (due : List Event) (d : Disposition) (r : Reply) : Prop
  | all : d.isFinal → r.disposition = d → pieces r.events = pieces due → Pays due d r
  | some {rest : List Event} : r.disposition = .unfinished → r.state.explicit = true →
      r.state.Balanced → r.state.Due rest d → pieces due = pieces r.events ++ pieces rest →
      Pays due d r

theorem pieces_dataOwed (s : Response) : pieces s.dataOwed = pieces [.data s.waiting false] := by
  unfold dataOwed
  split
  · rename_i h
    simp [h, pieces_cons, Event.pieces]
  · rfl

/-- What waits is the front that a grant takes, and the rest. -/
theorem pieces_waiting {s t : Response} {credit : Nat} (ht : t.waiting = s.waiting.drop credit)
    (last : Bool) (es : List Event) :
    pieces (.data s.waiting last :: es) =
      pieces [.data (s.waiting.take credit) false] ++ pieces (.data t.waiting last :: es) := by
  rw [ht, ← pieces_data, List.take_append_drop]

theorem pieces_owed_partly {s t : Response} {credit : Nat}
    (ht : t.waiting = s.waiting.drop credit) (es : List Event) :
    pieces (s.dataOwed ++ es) =
      pieces [.data (s.waiting.take credit) false] ++ pieces (t.dataOwed ++ es) := by
  rw [pieces_append, pieces_dataOwed, pieces_waiting ht, pieces_append, pieces_dataOwed,
    List.append_assoc]

theorem pays_grant {s : Response} (hx : s.explicit = true) (hb : s.Balanced) {due : List Event}
    {d : Disposition} (hd : s.Due due d) (credit : Nat) : Pays due d (s.resume credit) := by
  have hbal : (s.resume credit).disposition.isFinal = false → (s.resume credit).state.Balanced :=
    fun hf => balanced_resume hb hx hf
  have hend : s.endPending = (s.endReceived && s.trailers.isNone) := by
    simp [endPending, hb.unforwarded]
  have h := onResume_spec hb.unforwarded credit
  generalize s.resume credit = r at h hbal ⊢
  cases h with
  | finished _ hp _ =>
    cases hd with
    | data _ _ => exact .all rfl rfl rfl
    | trailers he ht => simp [hp, ht] at hend
    | error he _ _ _ => simp [hp, he] at hend
  | partly b _ hw =>
    cases hd with
    | data he ht => exact .some rfl hx (hbal rfl) (.data he ht) (pieces_waiting hw true _)
    | trailers he ht => exact .some rfl hx (hbal rfl) (.trailers he ht) (pieces_owed_partly hw _)
    | error he ht hdef herr =>
      exact .some rfl hx (hbal rfl) (.error he ht hdef herr) (pieces_owed_partly hw _)
  | trailers _ ht _ =>
    cases hd with
    | data _ hn => simp [ht] at hn
    | trailers _ hs =>
      obtain rfl := Option.some.inj (ht.symm.trans hs)
      exact .all rfl rfl rfl
    | error _ hn _ _ => simp [ht] at hn
  | failed _ hp ht _ _ =>
    cases hd with
    | data he _ => simp [hp, ht, he] at hend
    | trailers _ hs => simp [ht] at hs
    | error _ _ _ herr => exact .all rfl rfl (by rw [herr]; rfl)
  | drained _ hp ht hdef _ _ =>
    cases hd with
    | data he _ => simp [hp, ht, he] at hend
    | trailers _ hs => simp [ht] at hs
    | error _ _ hdef' _ => simp [hdef] at hdef'

/-- A reset after the end, or after another reset, changes nothing. -/
theorem pays_reset {s : Response} (hx : s.explicit = true) (hb : s.Balanced) {due : List Event}
    {d : Disposition} (hd : s.Due due d) : Pays due d s.onReset := by
  have h := s.onReset_spec
  generalize s.onReset = r at h ⊢
  cases h with
  | ignored _ => exact .some rfl hx hb hd rfl
  | failing he =>
    cases hd with
    | data he' _ | trailers he' _ => simp [he] at he'
    | @error e _ ht hdef herr =>
      rw [show some (s.error.getD .reset) = s.error by rw [herr]; rfl]
      have hf := s.onFail
      generalize s.fail = r at hf ⊢
      cases hf with
      | deferred _ _ _ =>
        rw [← hdef]
        exact .some rfl hx hb (.error he ht hdef herr) rfl
      | delivered hcredit =>
        -- an error that was put off found no credit, and there is none still
        have hclear := hb.clear (.inr (hcredit hx (hb.deferred hdef).2))
        rw [hclear.deferred] at hdef
        cases hdef

/-- After the end, what is due is what is told. -/
theorem exchange_due {s : Response} (hx : s.explicit = true) (hb : s.Balanced) {due : List Event}
    {d : Disposition} (hd : s.Due due d) {acts : List Act}
    (hr : Resets (acts.filterMap Act.part?)) (hf : (s.exchange acts).disposition.isFinal) :
    pieces (s.exchange acts).events = pieces due ∧ (s.exchange acts).disposition = d := by
  induction acts generalizing s due with
  | nil => cases hf
  | cons a acts ih =>
    have hpays : Pays due d (s.act a) := by
      cases a with
      | grant credit => exact pays_grant hx hb hd credit
      | arrive p =>
        have hp : p.isReset := hr p (by simp [Act.part?])
        cases p with
        | reset _ => exact pays_reset hx hb hd
        | headers _ _ | data _ _ | trailers _ => cases hp
    have hr' : Resets (acts.filterMap Act.part?) := by
      intro p hp
      refine hr p ?_
      rw [List.filterMap_cons]
      split
      · exact hp
      · exact List.mem_cons_of_mem _ hp
    cases hpays with
    | all hfin hdis hev =>
      rw [exchange_final (hdis ▸ hfin)]
      exact ⟨hev, hdis⟩
    | some hun hx' hb' hd' hev =>
      have hun' : (s.act a).disposition.isFinal = false := by rw [hun]; rfl
      rw [exchange_unfinished hun'] at hf ⊢
      obtain ⟨h1, h2⟩ := ih hx' hb' hd' hr' hf
      refine ⟨?_, h2⟩
      show pieces ((s.act a).events ++ _) = _
      rw [pieces_append, h1, hev]

/-! ### Before the end -/

/-- Before the end of the response: with flow control the data that waits is
still owed, and all else is as it is without. -/
structure Alike (begun : Bool) (s i : Response) : Prop where
  explicit : s.explicit = true
  implicit : i.explicit = false
  balanced : s.Balanced
  error : i.error = s.error
  success : i.success = s.success
  undeferred : s.errorDeferred = false
  unended : s.endReceived = false
  unended' : i.endReceived = false
  /-- Headers are passed on unless they are marked. -/
  seen : s.headersForwarded = (begun && s.error.isNone)
  fresh : begun = false → s.error = none
  silent : s.headersForwarded = false → s.waiting = []

theorem alike_new (high high' : Nat) :
    Alike false { explicit := true, high := high } { explicit := false, high := high' } where
  explicit := rfl
  implicit := rfl
  balanced := balanced_new _ _
  error := rfl
  success := rfl
  undeferred := rfl
  unended := rfl
  unended' := rfl
  seen := rfl
  fresh _ := rfl
  silent _ := rfl

/-- An act that both sides go on after: `i` tells what `s` tells or owes from now on. -/
def GoesOn (s i : Response) (a : Act) : Prop :=
  (s.act a).disposition = .unfinished ∧ (i.act a).disposition = .unfinished ∧
    Alike true (s.act a).state (i.act a).state ∧
    pieces s.dataOwed ++ pieces (i.act a).events =
      pieces (s.act a).events ++ pieces (s.act a).state.dataOwed

/-- An act that `i` ends with: `s` pays what it owes and what `i` tells, or some of it. -/
def EndsIn (s i : Response) (a : Act) : Prop :=
  (i.act a).disposition.isFinal ∧
    Pays (s.dataOwed ++ (i.act a).events) (i.act a).disposition (s.act a)

section Alike

variable {begun : Bool} {s i : Response}

theorem Alike.trailers (hs : Alike begun s i) : s.trailers = none := by
  have hp := hs.balanced.parked
  rw [hs.unended] at hp
  simpa using hp

/-- Nothing puts an error off but flow control, and only after headers. -/
theorem fail_at_once {s : Response} (h : s.explicit = false ∨ s.headersForwarded = false) :
    s.fail = s.deliverError := by
  unfold fail
  rw [if_neg (by rcases h with h | h <;> simp [h])]

theorem dataOwed_of_silent (h : s.waiting = []) : s.dataOwed = [] := by
  unfold dataOwed
  rw [if_pos h]

/-- A marked response is waited for in silence. -/
theorem Alike.of_error (hs : Alike begun s i) (he : s.error.isSome) :
    s.headersForwarded = false ∧ s.dataOwed = [] := by
  have hh : s.headersForwarded = false := by
    rw [hs.seen]
    cases h : s.error <;> simp_all
  exact ⟨hh, dataOwed_of_silent (hs.silent hh)⟩

/-- A grant before the end pays some of the data owed. -/
theorem Alike.grant (hs : Alike begun s i) (credit : Nat) :
    (s.resume credit).disposition = .unfinished ∧ Alike begun (s.resume credit).state i ∧
      pieces s.dataOwed =
        pieces (s.resume credit).events ++ pieces (s.resume credit).state.dataOwed := by
  have hbal : (s.resume credit).disposition.isFinal = false → (s.resume credit).state.Balanced :=
    fun hf => balanced_resume hs.balanced hs.explicit hf
  have hend : s.endPending = false := by simp [endPending, hs.unended]
  have h := onResume_spec hs.balanced.unforwarded credit
  generalize s.resume credit = r at h hbal ⊢
  cases h with
  | finished _ hp _ => simp [hend] at hp
  | trailers _ ht _ => simp [hs.trailers] at ht
  | failed _ _ _ hd _ => simp [hs.undeferred] at hd
  | partly b _ hw =>
    refine ⟨rfl, { hs with balanced := hbal rfl, silent := fun hh => ?_ }, ?_⟩
    · have hnone : s.waiting = [] := hs.silent hh
      exact hw.trans (by rw [hnone, List.drop_nil])
    · rw [pieces_dataOwed, pieces_dataOwed]
      exact pieces_waiting hw false []
  | drained b _ _ _ _ hw =>
    refine ⟨rfl, { hs with balanced := hbal rfl, silent := fun _ => hw }, ?_⟩
    have hnone : pieces (dataOwed _) = [] := congrArg pieces (dataOwed_of_silent hw)
    exact (List.append_nil _).symm.trans (congrArg _ hnone.symm)

/-- Where headers were seen, the buffer and the credit make no difference. -/
theorem Alike.rebuffer (hs : Alike true s i) (he : s.error = none) {credit : Nat}
    {b : Option Buffer} (hb : ({ s with credit := credit, buffer := b } : Response).Balanced) :
    Alike true { s with credit := credit, buffer := b } { i with credit := 0 } where
  explicit := hs.explicit
  implicit := hs.implicit
  balanced := hb
  error := hs.error
  success := hs.success
  undeferred := hs.undeferred
  unended := hs.unended
  unended' := hs.unended'
  seen := hs.seen
  fresh h := by cases h
  silent h := by
    have hseen : s.headersForwarded = true := by rw [hs.seen, he]; rfl
    rw [show s.headersForwarded = false from h] at hseen
    cases hseen

/-- Where headers were seen, what is held back is owed. -/
theorem Alike.held (hs : Alike true s i) (he : s.error = none) {k : Nat} {bytes : Bytes}
    (hb : (({ s with credit := k } : Response).hold bytes).state.Balanced) :
    Alike true (({ s with credit := k } : Response).hold bytes).state { i with credit := 0 } ∧
      pieces (({ s with credit := k } : Response).hold bytes).state.dataOwed =
        pieces [.data (s.waiting ++ bytes) false] := by
  obtain ⟨b, hst, hw⟩ := hold_eq ({ s with credit := k } : Response) bytes
  rw [hst] at hb ⊢
  refine ⟨hs.rebuffer he hb, ?_⟩
  rw [pieces_dataOwed, hw]
  rfl

theorem onData_marked {i : Response} (he : i.error.isSome) (bytes : Bytes) (last : Bool) :
    i.onData bytes last = if last then (i.receiveEnd last).fail else { state := i } := by
  unfold onData
  cases last <;> simp [receiveEnd, he]

theorem onData_implicit {i : Response} (hi : i.explicit = false) (he : i.error = none)
    {bytes : Bytes} {last : Bool} (hb : bytes = [] → last = true) :
    i.onData bytes last = (i.receiveEnd last).forwardData bytes last := by
  unfold onData
  cases last with
  | true => simp [receiveEnd, hi, he]
  | false =>
    have hne : bytes ≠ [] := fun h => by simpa using hb h
    simp [receiveEnd, hi, he, hne]

/-- Data before the end is told at once without flow control, and told or owed with it. -/
theorem Alike.data (hs : Alike true s i) (bytes : Bytes) :
    GoesOn s i (.arrive (.data bytes false)) := by
  change (s.onData bytes false).disposition = .unfinished ∧
    (i.onData bytes false).disposition = .unfinished ∧
    Alike true (s.onData bytes false).state (i.onData bytes false).state ∧
    pieces s.dataOwed ++ pieces (i.onData bytes false).events =
      pieces (s.onData bytes false).events ++ pieces (s.onData bytes false).state.dataOwed
  have hbal : (s.onData bytes false).disposition.isFinal = false →
      (s.onData bytes false).state.Balanced := balanced_onData hs.balanced
  have h := s.onData_spec bytes false
  have told (he : s.error = none) (hb : bytes = [] → false = true) :
      i.onData bytes false = i.forwardData bytes false :=
    onData_implicit hs.implicit (hs.error.trans he) hb
  generalize s.onData bytes false = r at h hbal ⊢
  cases h with
  | failing _ hl => cases hl
  | suppressed he _ =>
    rw [onData_marked (hs.error ▸ he)]
    exact ⟨rfl, rfl, hs, by simp⟩
  | empty he hb _ =>
    have hsilent : i.onData bytes false = { state := i } := by
      unfold onData
      simp [receiveEnd, hs.error, he, hb]
    rw [hsilent]
    exact ⟨rfl, rfl, hs, by simp⟩
  | passed he hb hfree =>
    rw [told he hb]
    have hw := (hfree hs.explicit).1
    refine ⟨rfl, rfl, hs.rebuffer he (hbal rfl), ?_⟩
    have hnone : ({ s with credit := 0 } : Response).dataOwed = [] := dataOwed_of_silent hw
    show pieces s.dataOwed ++ pieces [.data bytes false] =
      pieces [.data bytes false] ++ pieces ({ s with credit := 0 } : Response).dataOwed
    rw [hnone, dataOwed_of_silent hw]
    simp
  | split he _ hw _ hlt =>
    rw [told he (by rintro rfl; simp at hlt)]
    obtain ⟨halike, howed⟩ := hs.held (k := 0) he (hbal rfl)
    refine ⟨rfl, rfl, halike, ?_⟩
    show pieces s.dataOwed ++ pieces [.data bytes false] = pieces [.data (bytes.take s.credit) false]
      ++ pieces (hold ({ s with credit := 0 } : Response) (bytes.drop s.credit)).state.dataOwed
    rw [howed, dataOwed_of_silent hw, hw, ← pieces_data, List.nil_append, List.take_append_drop]
    rfl
  | held he hb _ _ =>
    rw [told he hb]
    obtain ⟨halike, howed⟩ := hs.held (k := s.credit) he (hbal rfl)
    refine ⟨rfl, rfl, halike, ?_⟩
    show pieces s.dataOwed ++ pieces [.data bytes false] =
      pieces [] ++ pieces (s.hold bytes).state.dataOwed
    rw [pieces_nil, List.nil_append, howed, pieces_dataOwed, ← pieces_data]

/-! ### The end -/

/-- The same error, told at once on both sides. -/
theorem pays_error {s i : Response} {owed : List Event} (ho : owed = []) (he : i.error = s.error)
    (hi : i.explicit = false) (hs : s.explicit = false ∨ s.headersForwarded = false) :
    i.fail.disposition.isFinal ∧ Pays (owed ++ i.fail.events) i.fail.disposition s.fail := by
  rw [fail_at_once (.inl hi), fail_at_once hs, ho]
  refine ⟨rfl, .all rfl rfl ?_⟩
  show pieces [.error (s.error.getD .reset)] = pieces [.error (i.error.getD .reset)]
  rw [he]

/-- The end was carried by data that is held back. -/
theorem due_hold {s : Response} (he : s.endReceived = true) (ht : s.trailers = none)
    {success : Bool} (hs : success = s.success) (bytes : Bytes) :
    Due (s.hold bytes).state [.data (s.waiting ++ bytes) true, .complete] (.completed success) := by
  obtain ⟨b, hst, hb⟩ := hold_eq s bytes
  rw [hst, ← hb, hs]
  exact .data he ht

/-- The end carried by data. -/
theorem Alike.dataEnd (hs : Alike true s i) (bytes : Bytes) :
    EndsIn s i (.arrive (.data bytes true)) := by
  change (i.onData bytes true).disposition.isFinal ∧
    Pays (s.dataOwed ++ (i.onData bytes true).events) (i.onData bytes true).disposition (s.onData bytes true)
  have hbal : (s.onData bytes true).disposition.isFinal = false →
      (s.onData bytes true).state.Balanced := balanced_onData hs.balanced
  have h := s.onData_spec bytes true
  have told (he : s.error = none) : i.onData bytes true = (i.receiveEnd true).forwardData bytes true :=
    onData_implicit hs.implicit (hs.error.trans he) fun _ => rfl
  generalize s.onData bytes true = r at h hbal ⊢
  cases h with
  | failing he _ =>
    obtain ⟨hh, howed⟩ := hs.of_error he
    rw [onData_marked (hs.error ▸ he), if_pos rfl]
    exact pays_error howed hs.error hs.implicit (.inr hh)
  | suppressed _ hl | empty _ _ hl => cases hl
  | passed he _ hfree =>
    rw [told he, dataOwed_of_silent (hfree hs.explicit).1]
    refine ⟨rfl, .all rfl ?_ rfl⟩
    show Disposition.completed s.success = .completed i.success
    rw [hs.success]
  | split he _ hw _ _ =>
    rw [told he, dataOwed_of_silent hw]
    have hdue := due_hold (s := { s with endReceived := true, credit := 0 }) rfl hs.trailers
      hs.success (bytes.drop s.credit)
    refine ⟨rfl, .some rfl hs.explicit (hbal rfl) hdue ?_⟩
    show pieces [.data bytes true, .complete] = pieces [.data (bytes.take s.credit) false] ++
      pieces [.data (s.waiting ++ bytes.drop s.credit) true, .complete]
    rw [← pieces_data, hw, List.nil_append, List.take_append_drop]
  | held he _ _ _ =>
    rw [told he]
    have hdue := due_hold (s := { s with endReceived := true }) rfl hs.trailers hs.success bytes
    refine ⟨rfl, .some rfl hs.explicit (hbal rfl) hdue ?_⟩
    show pieces (s.dataOwed ++ [.data bytes true, .complete]) =
      pieces [.data (s.waiting ++ bytes) true, .complete]
    rw [pieces_append, pieces_dataOwed, ← pieces_data]

/-- The end carried by trailers. -/
theorem Alike.trailersEnd (hs : Alike true s i) (block : Headers) :
    EndsIn s i (.arrive (.trailers block)) := by
  change (i.onTrailers block).disposition.isFinal ∧
    Pays (s.dataOwed ++ (i.onTrailers block).events) (i.onTrailers block).disposition (s.onTrailers block)
  have hbal : (s.onTrailers block).disposition.isFinal = false →
      (s.onTrailers block).state.Balanced := balanced_onTrailers hs.balanced
  have h := s.onTrailers_spec block
  have told (he : s.error = none) : i.onTrailers block = (i.receiveEnd true).forwardTrailers block := by
    unfold onTrailers
    simp [receiveEnd, hs.error, he, hs.implicit]
  generalize s.onTrailers block = r at h hbal ⊢
  cases h with
  | failing he =>
    obtain ⟨hh, howed⟩ := hs.of_error he
    have hfail : i.onTrailers block = (i.receiveEnd true).fail := by
      unfold onTrailers
      simp [receiveEnd, hs.error, he]
    rw [hfail]
    exact pays_error howed hs.error hs.implicit (.inr hh)
  | parked he _ _ =>
    rw [told he]
    have hdue : Due { s.receiveEnd true with trailers := some block }
        (s.dataOwed ++ [.trailers block, .complete]) (.completed i.success) := by
      rw [hs.success]
      exact .trailers rfl rfl
    exact ⟨rfl, .some rfl hs.explicit (hbal rfl) hdue rfl⟩
  | passed he hfree =>
    rw [told he, dataOwed_of_silent (hfree hs.explicit).1]
    refine ⟨rfl, .all rfl ?_ rfl⟩
    show Disposition.completed s.success = .completed i.success
    rw [hs.success]

/-- A reset instead of the end. -/
theorem Alike.reset (hs : Alike begun s i) (reason : ResetReason) :
    EndsIn s i (.arrive (.reset reason)) := by
  change i.onReset.disposition.isFinal ∧
    Pays (s.dataOwed ++ i.onReset.events) i.onReset.disposition s.onReset
  have hbal : s.onReset.disposition.isFinal = false → s.onReset.state.Balanced :=
    balanced_onReset hs.balanced
  have h := s.onReset_spec
  have told : i.onReset = ({ i with error := some (s.error.getD .reset) } : Response).deliverError := by
    unfold onReset
    rw [if_neg (by simp [hs.unended']), hs.error]
    exact fail_at_once (.inl hs.implicit)
  generalize s.onReset = r at h hbal ⊢
  cases h with
  | ignored he => simp [hs.unended] at he
  | failing _ =>
    rw [told]
    have hf := onFail ({ s with error := some (s.error.getD .reset) } : Response)
    generalize fail _ = r at hf hbal ⊢
    cases hf with
    | deferred _ _ _ =>
      have hdue : Due { s with error := some (s.error.getD .reset), errorDeferred := true }
          (s.dataOwed ++ [.error (s.error.getD .reset)]) .failed :=
        .error hs.unended hs.trailers rfl rfl
      exact ⟨rfl, .some rfl hs.explicit (hbal rfl) hdue rfl⟩
    | delivered hcredit =>
      have hw : s.waiting = [] := by
        cases hh : s.headersForwarded with
        | false => exact hs.silent hh
        | true => exact (hs.balanced.clear (.inr (hcredit hs.explicit hh))).waiting
      rw [dataOwed_of_silent hw]
      exact ⟨rfl, .all rfl rfl rfl⟩

/-- Headers that carry the end. -/
theorem Alike.headersEnd (hs : Alike false s i) (block : Headers) :
    EndsIn s i (.arrive (.headers block true)) := by
  change (i.onHeaders block true).disposition.isFinal ∧
    Pays (s.dataOwed ++ (i.onHeaders block true).events) (i.onHeaders block true).disposition (s.onHeaders block true)
  have hh : s.headersForwarded = false := hs.seen
  have howed : s.dataOwed = [] := dataOwed_of_silent (hs.silent hh)
  unfold onHeaders
  cases StreamError.ofHeaders? block with
  | some e => exact pays_error howed rfl hs.implicit (.inr hh)
  | none =>
    rw [howed]
    exact ⟨rfl, .all rfl rfl rfl⟩

theorem onHeaders_marked (s : Response) {block : Headers} {e : StreamError}
    (hm : StreamError.ofHeaders? block = some e) :
    s.onHeaders block false = { state := { s with error := some e } } := by
  unfold onHeaders
  rw [hm]
  rfl

/-- Headers before the end are told alike, or not told. -/
theorem Alike.headers (hs : Alike false s i) (block : Headers) :
    GoesOn s i (.arrive (.headers block false)) := by
  change (s.onHeaders block false).disposition = .unfinished ∧
    (i.onHeaders block false).disposition = .unfinished ∧
    Alike true (s.onHeaders block false).state (i.onHeaders block false).state ∧
    pieces s.dataOwed ++ pieces (i.onHeaders block false).events =
      pieces (s.onHeaders block false).events ++ pieces (s.onHeaders block false).state.dataOwed
  have hbal : (s.onHeaders block false).disposition.isFinal = false →
      (s.onHeaders block false).state.Balanced := balanced_onHeaders hs.balanced
  have hw : s.waiting = [] := hs.silent hs.seen
  have howed : s.dataOwed = [] := dataOwed_of_silent hw
  cases hm : StreamError.ofHeaders? block with
  | some e =>
    rw [onHeaders_marked s hm] at hbal ⊢
    rw [onHeaders_marked i hm]
    refine ⟨rfl, rfl, ⟨hs.explicit, hs.implicit, hbal rfl, rfl, hs.success, hs.undeferred,
      hs.unended, hs.unended', hs.seen, by simp, fun _ => hw⟩, ?_⟩
    show pieces s.dataOwed ++ pieces [] = pieces [] ++ pieces s.dataOwed
    rw [howed]
  | none =>
    rw [onHeaders_unmarked s hm] at hbal ⊢
    rw [onHeaders_unmarked i hm]
    have hseen : true = (true && s.error.isNone) := by rw [hs.fresh rfl]; rfl
    refine ⟨rfl, rfl, ⟨hs.explicit, hs.implicit, hbal rfl, hs.error, rfl, hs.undeferred,
      hs.unended, hs.unended', hseen, by simp, fun _ => hw⟩, ?_⟩
    show pieces s.dataOwed ++ pieces [.headers block false] =
      pieces [.headers block false] ++ pieces s.dataOwed
    rw [howed]
    rfl

/-! ### The whole response -/

/-- The first reply tells what is owed and what the second one tells, and ends
as the second one does. -/
def Settles (owed : List Event) (x y : Reply) : Prop :=
  pieces x.events = pieces owed ++ pieces y.events ∧ x.disposition = y.disposition

theorem Settles.after {owed owed' : List Event} {x y : Reply} (h : Settles owed' x y)
    {told told' : List Event} (ht : pieces owed ++ pieces told' = pieces told ++ pieces owed') :
    Settles owed (x.after told) (y.after told') := by
  refine ⟨?_, h.2⟩
  show pieces (told ++ x.events) = pieces owed ++ pieces (told' ++ y.events)
  calc pieces (told ++ x.events)
      = pieces told ++ (pieces owed' ++ pieces y.events) := by rw [pieces_append, h.1]
    _ = pieces owed ++ pieces told' ++ pieces y.events := by rw [← List.append_assoc, ht]
    _ = pieces owed ++ pieces (told' ++ y.events) := by rw [pieces_append, List.append_assoc]

/-- Once the response has ended, what is due is paid whatever follows. -/
theorem settles_end {a : Act} {acts : List Act} (hend : EndsIn s i a)
    (hr : Resets (acts.filterMap Act.part?)) (hf : (s.exchange (a :: acts)).disposition.isFinal)
    (later : List Act) : Settles s.dataOwed (s.exchange (a :: acts)) (i.exchange (a :: later)) := by
  obtain ⟨hfin, hpays⟩ := hend
  rw [exchange_final hfin]
  cases hpays with
  | all _ hdis hev =>
    rw [exchange_final (hdis ▸ hfin)]
    exact ⟨hev.trans (pieces_append _ _), hdis⟩
  | some hun hx hb hd hev =>
    have hun' : (s.act a).disposition.isFinal = false := by rw [hun]; rfl
    rw [exchange_unfinished hun'] at hf ⊢
    obtain ⟨h1, h2⟩ := exchange_due hx hb hd hr hf
    refine ⟨?_, h2⟩
    show pieces ((s.act a).events ++ _) = _
    rw [pieces_append, h1, ← hev, pieces_append]

theorem settles_grant (hs : Alike begun s i) {credit : Nat} {acts later : List Act}
    (ih : (((s.resume credit).state).exchange acts).disposition.isFinal →
      Settles (s.resume credit).state.dataOwed ((s.resume credit).state.exchange acts)
        (i.exchange later))
    (hf : (s.exchange (.grant credit :: acts)).disposition.isFinal) :
    Settles s.dataOwed (s.exchange (.grant credit :: acts)) (i.exchange later) := by
  obtain ⟨hun, -, hev⟩ := hs.grant credit
  have hun' : (s.act (.grant credit)).disposition.isFinal = false := by
    show (s.resume credit).disposition.isFinal = false
    rw [hun]
    rfl
  rw [exchange_unfinished hun'] at hf ⊢
  have hev' : pieces s.dataOwed ++ pieces [] =
      pieces (s.resume credit).events ++ pieces (s.resume credit).state.dataOwed := by
    rw [pieces_nil, List.append_nil]
    exact hev
  exact (ih hf).after hev'

theorem settles_arrive {a : Act} {acts later : List Act} (hstep : GoesOn s i a)
    (ih : ((s.act a).state.exchange acts).disposition.isFinal →
      Settles (s.act a).state.dataOwed ((s.act a).state.exchange acts)
        ((i.act a).state.exchange later))
    (hf : (s.exchange (a :: acts)).disposition.isFinal) :
    Settles s.dataOwed (s.exchange (a :: acts)) (i.exchange (a :: later)) := by
  obtain ⟨hs, hi, -, hev⟩ := hstep
  have hs' : (s.act a).disposition.isFinal = false := by rw [hs]; rfl
  have hi' : (i.act a).disposition.isFinal = false := by rw [hi]; rfl
  rw [exchange_unfinished hs'] at hf ⊢
  rw [exchange_unfinished hi']
  exact (ih hf).after hev

theorem settles_body (hs : Alike true s i) {acts : List Act}
    (hb : Body (acts.filterMap Act.part?)) (hf : (s.exchange acts).disposition.isFinal) :
    Settles s.dataOwed (s.exchange acts)
      (i.exchange ((acts.filterMap Act.part?).map .arrive)) := by
  induction acts generalizing s i with
  | nil => cases hf
  | cons a acts ih =>
    cases a with
    | grant credit => exact settles_grant hs (ih (hs.grant credit).2.1 hb) hf
    | arrive p =>
      change Body (p :: acts.filterMap Act.part?) at hb
      cases hb with
      | data bytes hb => exact settles_arrive (hs.data bytes) (ih (hs.data bytes).2.2.1 hb) hf
      | dataEnd bytes hr => exact settles_end (hs.dataEnd bytes) hr hf _
      | trailers block hr => exact settles_end (hs.trailersEnd block) hr hf _
      | reset reason hr => exact settles_end (hs.reset reason) hr hf _

/-- A well-formed response is told the same with flow control, however it is
mixed with grants that see it to its end. -/
theorem settles_wellFormed (hs : Alike false s i) {acts : List Act}
    (hp : WellFormed (acts.filterMap Act.part?)) (hf : (s.exchange acts).disposition.isFinal) :
    Settles s.dataOwed (s.exchange acts)
      (i.exchange ((acts.filterMap Act.part?).map .arrive)) := by
  induction acts generalizing s i with
  | nil => cases hf
  | cons a acts ih =>
    cases a with
    | grant credit => exact settles_grant hs (ih (hs.grant credit).2.1 hp) hf
    | arrive p =>
      change WellFormed (p :: acts.filterMap Act.part?) at hp
      cases hp with
      | headers block hb =>
        exact settles_arrive (hs.headers block) (settles_body (hs.headers block).2.2.1 hb) hf
      | headersEnd block hr => exact settles_end (hs.headersEnd block) hr hf _
      | reset reason hr => exact settles_end (hs.reset reason) hr hf _

end Alike

end Response

/-! ### Clients -/

namespace Client

/-- A run that brings the parts `ps` under a handle, and neither starts nor
cancels a stream there. -/
structure Takes (h : Handle) (ps : List ResponsePart) (ms : List Move) : Prop where
  parts : (ms.filter fun m => m.op.handle? = some h).filterMap (·.op.part?) = ps
  keeps : ∀ m ∈ ms, m.op ≠ .start h ∧ m.op ≠ .cancel h

theorem parts_actsOn (h : Handle) (explicit : Bool) (ms : List Move) :
    (actsOn h explicit ms).filterMap Act.part? =
      (ms.filter fun m => m.op.handle? = some h).filterMap (·.op.part?) := by
  unfold actsOn
  rw [List.filterMap_filterMap, List.filterMap_filter]
  congr 1
  funext m
  by_cases hop : m.op.handle? = some h
  · simp [hop, m.op.part?_eq explicit]
  · simp [hop]

theorem actsOn_implicit (h : Handle) (ms : List Move) :
    actsOn h false ms =
      ((ms.filter fun m => m.op.handle? = some h).filterMap (·.op.part?)).map .arrive := by
  unfold actsOn
  rw [List.map_filterMap, List.filterMap_filter]
  congr 1
  funext m
  by_cases hop : m.op.handle? = some h
  · simp [hop, m.op.act?_implicit]
  · simp [hop]

/-- A start under a free handle tells nothing and counts nothing as ended. -/
theorem start_free {c : Client} (hc : c.Sound) {h : Handle} (hfree : c.entry h = none)
    (network : Network) :
    (c.advance ⟨.start h, network⟩).1.find ⟨h, c.nextSerial⟩ = some (c.fresh h) ∧
      told ⟨h, c.nextSerial⟩ (c.advance ⟨.start h, network⟩).2 = [] ∧
      (c.advance ⟨.start h, network⟩).1.outcomes = c.outcomes := by
  have hd := does_advance hc.disjoint ⟨.start h, network⟩
  generalize c.advance ⟨.start h, network⟩ = r at hd ⊢
  obtain ⟨d, outs⟩ := r
  cases hd with
  | absent hop hs _ =>
    cases hop
    exact absurd rfl hs
  | taken he =>
    rw [hfree] at he
    cases he
  | unsent _ hs _ => cases hs
  | started _ hp =>
    refine ⟨find_eq_some.mpr ⟨rfl, .opened, ?_⟩, rfl, hp.outcomes⟩
    exact (hp.entry h).trans (if_pos rfl)
  | sent _ _ _ hs _ _ _ => cases hs
  | answered _ ha _ _ => cases ha

/-- What becomes of a stream that takes the parts `ps` is what a response side
makes of them. -/
theorem exchange_of_start {c : Client} (hc : c.Sound) {h : Handle} (hfree : c.entry h = none)
    (network : Network) {ps : List ResponsePart} {ms : List Move} (hms : Takes h ps ms) :
    ∃ acts, acts.filterMap Act.part? = ps ∧ (c.explicit = false → acts = ps.map .arrive) ∧
      (c.log ⟨h, c.nextSerial⟩ (⟨.start h, network⟩ :: ms)).flatten =
        ((c.fresh h).response.exchange acts).events ∧
      (¬ (c.after (⟨.start h, network⟩ :: ms)).Live ⟨h, c.nextSerial⟩ ↔
        ((c.fresh h).response.exchange acts).disposition.isFinal) ∧
      c.tally h (⟨.start h, network⟩ :: ms) =
        Outcomes.settle {} ((c.fresh h).response.exchange acts).disposition := by
  obtain ⟨hfind, htold, hout⟩ := start_free hc hfree network
  have hd := sound_advance hc ⟨.start h, network⟩
  have hx := (does_advance hc.disjoint ⟨.start h, network⟩).explicit
  obtain ⟨hlog, hfin, htally⟩ := exchange_of_registered hd hfind hms.keeps
  rw [hx] at hlog hfin htally
  refine ⟨actsOn h c.explicit ms, ?_, fun hi => ?_, ?_, ?_, ?_⟩
  · rw [parts_actsOn, hms.parts]
  · rw [hi, actsOn_implicit, hms.parts]
  · rw [log_cons, List.flatten_cons, htold]
    exact hlog
  · rw [live_iff (sound_after hc _), ← hfin, Option.not_isSome_iff_eq_none]
    rfl
  · rw [tally, hout, htally]
    simp

/-- Flow control changes nothing about a well-formed response but how its data
is cut: once the stream has ended with flow control, it has ended without, and
the same was told of it and counted. -/
theorem flow_control_transparent {c c' : Client} (hc : c.Reachable) (hc' : c'.Reachable)
    (hx : c.explicit = true) (hx' : c'.explicit = false) {h : Handle} (hfree : c.entry h = none)
    (hfree' : c'.entry h = none) {ps : List ResponsePart} (hps : WellFormed ps)
    {ms ms' : List Move} (hms : Takes h ps ms) (hms' : Takes h ps ms') (n n' : Network)
    (hend : ¬ (c.after (⟨.start h, n⟩ :: ms)).Live ⟨h, c.nextSerial⟩) :
    ¬ (c'.after (⟨.start h, n'⟩ :: ms')).Live ⟨h, c'.nextSerial⟩ ∧
      pieces (c.log ⟨h, c.nextSerial⟩ (⟨.start h, n⟩ :: ms)).flatten =
        pieces (c'.log ⟨h, c'.nextSerial⟩ (⟨.start h, n'⟩ :: ms')).flatten ∧
      c.tally h (⟨.start h, n⟩ :: ms) = c'.tally h (⟨.start h, n'⟩ :: ms') := by
  obtain ⟨acts, hparts, -, hlog, hlive, htally⟩ := exchange_of_start hc.sound hfree n hms
  obtain ⟨acts', -, hacts', hlog', hlive', htally'⟩ := exchange_of_start hc'.sound hfree' n' hms'
  obtain rfl := hacts' hx'
  have hfin := hlive.mp hend
  have halike : Response.Alike false (c.fresh h).response (c'.fresh h).response := by
    unfold fresh
    rw [hx, hx']
    exact Response.alike_new _ _
  obtain ⟨hev, hdis⟩ := Response.settles_wellFormed halike (hparts ▸ hps) hfin
  rw [hparts] at hev hdis
  refine ⟨hlive'.mpr (hdis ▸ hfin), ?_, ?_⟩
  · rw [hlog, hlog', hev]
    rfl
  · rw [htally, htally', hdis]

/-- Four bytes in two frames, a grant of two before the second one: two frames
again with flow control, cut elsewhere. -/
theorem flow_control_transparent_cut :
    let c := ofConfig { flowControl := { explicit := true } } {}
    let c' := ofConfig {} {}
    let ps : List ResponsePart := [.headers ⟨[(":status", "200")]⟩ false, .data [1, 2, 3] false,
      .data [4] true, .reset .remoteReset]
    let ms := [Operation.onHeaders ⟨1⟩ ⟨[(":status", "200")]⟩ false, .onData ⟨1⟩ [1, 2, 3] false,
      .resume ⟨1⟩ 2, .onData ⟨1⟩ [4] true, .onReset ⟨1⟩ .remoteReset, .resume ⟨1⟩ 2].map
        (Move.mk · .generic)
    let ms' := (ps.map (ResponsePart.operation ⟨1⟩)).map (Move.mk · .generic)
    let start : Move := ⟨.start ⟨1⟩, .generic⟩
    (WellFormed ps ∧ Takes ⟨1⟩ ps ms ∧ Takes ⟨1⟩ ps ms' ∧
      ¬ (c.after (start :: ms)).Live ⟨⟨1⟩, 0⟩) ∧
    (c.log ⟨⟨1⟩, 0⟩ (start :: ms)).flatten = [.headers ⟨[(":status", "200")]⟩ false,
      .data [1, 2] false, .data [3, 4] true, .complete] ∧
    ¬ (c'.after (start :: ms')).Live ⟨⟨1⟩, 0⟩ ∧
    pieces (c.log ⟨⟨1⟩, 0⟩ (start :: ms)).flatten =
      pieces (c'.log ⟨⟨1⟩, 0⟩ (start :: ms')).flatten ∧
    c.tally ⟨1⟩ (start :: ms) = c'.tally ⟨1⟩ (start :: ms') := by
  intro c c' ps ms ms' start
  have hps : WellFormed ps :=
    .headers _ (.data _ (.dataEnd _ fun p hp => by obtain rfl := List.mem_singleton.mp hp; rfl))
  have hms : Takes ⟨1⟩ ps ms := ⟨by decide, by decide⟩
  have hms' : Takes ⟨1⟩ ps ms' := ⟨by decide, by decide⟩
  have hc : c.Reachable := ⟨_, _, [], rfl⟩
  have hc' : c'.Reachable := ⟨_, _, [], rfl⟩
  have hend : ¬ (c.after (start :: ms)).Live ⟨⟨1⟩, 0⟩ := by
    rw [live_iff (sound_after hc.sound _)]
    decide
  exact ⟨⟨hps, hms, hms', hend⟩, by decide,
    flow_control_transparent hc hc' rfl rfl rfl rfl hps hms hms' .generic .generic hend⟩

end Client
end HttpExchange
