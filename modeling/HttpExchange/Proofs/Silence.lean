/-
# Silence without credit

With flow control an application that has been given headers and holds no credit
hears of its stream only when it grants some, or cancels it. Data, the end of
data, trailers and resets may come in any number and order: each has its own
place to wait in, and none is told (`Response.hushed_arrive`). An error that has
to wait stays behind the data: it is told by a grant that takes in all of it, and
by nothing else (`Response.error_withheld`).

Key definitions: `Happening.Spent`, `Response.Hushed`.
Key theorems: `Response.hushed_arrive`, `Response.error_withheld`,
`Client.silent_without_credit`.
-/
import HttpExchange.Proofs.Credit

namespace HttpExchange

namespace Happening

/-- All credit is spent: after every grant, data was told. -/
def Spent (h : List Happening) : Prop :=
  ∀ before credit after, h = before ++ .act (.grant credit) :: after →
    ∃ bytes last, .told (.data bytes last) ∈ after

/-- Where all credit is spent, none is outstanding. -/
theorem Spent.outstanding_eq {h : List Happening} (hs : Spent h) : outstanding h = 0 := by
  by_contra hne
  obtain ⟨before, after, heq, hneutral⟩ := exists_grant (Nat.pos_of_ne_zero hne)
  obtain ⟨bytes, last, hmem⟩ := hs before _ after heq
  cases hneutral _ hmem

/-- Credit lasts until data is told. -/
theorem leaves_pos {h : List Happening} (hpos : ∀ k ∈ grants h, 0 < k)
    (hno : ∀ bytes last, .told (.data bytes last) ∉ h) {credit : Nat} (hc : 0 < credit) :
    0 < h.foldl leaves credit := by
  induction h generalizing credit with
  | nil => exact hc
  | cons x h ih =>
    have hno' : ∀ bytes last, .told (.data bytes last) ∉ h :=
      fun bytes last hmem => hno bytes last (List.mem_cons_of_mem x hmem)
    match x with
    | act (.grant k) =>
      have hgrants : grants (act (.grant k) :: h) = k :: grants h := rfl
      rw [hgrants, List.forall_mem_cons] at hpos
      exact ih hpos.2 hno' hpos.1
    | told (.data bytes last) => exact absurd (List.mem_cons_self ..) (hno bytes last)
    | act (.arrive _) | told (.headers _ _) | told (.trailers _) | told (.error _) | told .complete
    | told .cancel => exact ih hpos hno' hc

/-- As long as every grant gives something, credit is spent where none is
outstanding. -/
theorem spent_iff {h : List Happening} (hpos : ∀ k ∈ grants h, 0 < k) :
    Spent h ↔ outstanding h = 0 := by
  refine ⟨Spent.outstanding_eq, fun ho before credit after heq => ?_⟩
  have hgrants : grants h = grants before ++ credit :: grants after := by
    rw [heq, grants_append]
    rfl
  by_contra hno
  have hlast : 0 < after.foldl leaves credit := by
    apply leaves_pos
    · exact fun k hk => hpos k (by simp [hgrants, hk])
    · exact fun bytes last hmem => hno ⟨bytes, last, hmem⟩
    · exact hpos credit (by simp [hgrants])
  unfold outstanding at ho
  rw [heq, List.foldl_append] at ho
  exact absurd ho (Nat.ne_of_gt hlast)

end Happening

namespace Response

/-- Headers were given, and data waits for credit, of which there is none. -/
structure Hushed (s : Response) : Prop where
  explicit : s.explicit = true
  seen : s.headersForwarded = true
  dry : s.credit = 0

/-- A reply that tells nothing and leaves the stream waiting for credit. -/
inductive Hushes : Reply → Prop
  | silent {t : Response} (raised : Bool) : t.Hushed → Hushes { state := t, raised := raised }

section Act

variable {s : Response}

theorem Hushed.receiveEnd (hs : s.Hushed) (last : Bool) : (s.receiveEnd last).Hushed := by
  rw [receiveEnd_eq]
  exact ⟨hs.explicit, hs.seen, hs.dry⟩

theorem Hushed.withError (hs : s.Hushed) (e : StreamError) :
    ({ s with error := some e } : Response).Hushed :=
  ⟨hs.explicit, hs.seen, hs.dry⟩

theorem Hushed.not_free (hs : s.Hushed) {P : Prop} (h : s.explicit = true → P ∧ 0 < s.credit) :
    False := by
  have hpos := (h hs.explicit).2
  rw [hs.dry] at hpos
  exact Nat.lt_irrefl 0 hpos

/-- An error has to wait. -/
theorem hushed_fail (hs : s.Hushed) : s.fail = { state := { s with errorDeferred := true } } := by
  unfold fail
  rw [if_pos]
  simp [hs.explicit, hs.seen, hs.dry]

theorem Hushed.fail (hs : s.Hushed) : Hushes s.fail := by
  rw [hushed_fail hs]
  exact .silent false ⟨hs.explicit, hs.seen, hs.dry⟩

theorem Hushed.hold (hs : s.Hushed) (bytes : Bytes) : Hushes (s.hold bytes) :=
  .silent _ ⟨hs.explicit, hs.seen, hs.dry⟩

/-- Whatever arrives for a stream without credit, apart from headers, is told
later. -/
theorem hushed_arrive (hs : s.Hushed) {p : ResponsePart} (hp : p.isHeaders = false) :
    Hushes (s.act (.arrive p)) := by
  match p with
  | .headers _ _ => cases hp
  | .data bytes last =>
    have h := s.onData_spec bytes last
    change Hushes (s.onData bytes last)
    generalize s.onData bytes last = r at h ⊢
    cases h with
    | failing _ _ => exact (hs.receiveEnd last).fail
    | suppressed _ _ | empty _ _ _ => exact .silent false hs
    | passed _ _ hfree => exact (hs.not_free fun hx => ⟨trivial, (hfree hx).2.1⟩).elim
    | split _ _ _ hpos _ => exact (hs.not_free fun _ => ⟨trivial, hpos⟩).elim
    | held _ _ _ _ => exact (hs.receiveEnd last).hold bytes
  | .trailers block =>
    have h := s.onTrailers_spec block
    change Hushes (s.onTrailers block)
    generalize s.onTrailers block = r at h ⊢
    cases h with
    | failing _ => exact (hs.receiveEnd true).fail
    | parked _ _ _ => exact .silent false ⟨hs.explicit, hs.seen, hs.dry⟩
    | passed _ hfree => exact (hs.not_free hfree).elim
  | .reset _ =>
    have h := s.onReset_spec
    change Hushes s.onReset
    generalize s.onReset = r at h ⊢
    cases h with
    | ignored _ => exact .silent false hs
    | failing _ => exact (hs.withError _).fail

/-- Nothing that arrives fails a stream without credit. -/
theorem hushed_not_failed (hs : s.Hushed) (p : ResponsePart) :
    (s.act (.arrive p)).disposition ≠ .failed := by
  by_cases hp : p.isHeaders = true
  · match p with
    | .headers block last =>
      have h := s.onHeaders_spec block last
      change (s.onHeaders block last).disposition ≠ .failed
      generalize s.onHeaders block last = r at h ⊢
      cases h with
      | failing _ _ =>
        rw [hushed_fail ((hs.receiveEnd last).withError _)]
        exact nofun
      | marked _ _ | completing _ _ | passed _ _ => exact nofun
  · have h := hushed_arrive hs (Bool.eq_false_iff.mpr hp)
    generalize s.act (.arrive p) = r at h ⊢
    cases h
    exact nofun

/-- A reset that counts has to wait. -/
theorem hushed_reset (hs : s.Hushed) (he : s.endReceived = false) :
    s.onReset.state.errorDeferred = true := by
  unfold onReset
  rw [if_neg (by simp [he]), hushed_fail (hs.withError _)]

/-- An error that was put off is told by a grant that takes in all the data that
waits, right after that data. -/
theorem error_withheld (hb : s.Balanced) (hx : s.explicit = true) (hd : s.errorDeferred = true)
    {a : Act} {e : StreamError} (he : .error e ∈ (s.act a).events) :
    ∃ credit, a = .grant credit ∧ s.waiting.length ≤ credit ∧
      (s.act a).events = s.dataOwed ++ [.error e] := by
  have hfailed := (s.tells_act a).failed_of_error he
  cases a with
  | arrive p =>
    have hdry : s.credit = 0 := by
      by_contra hne
      have hclear := hb.clear (.inr (Nat.pos_of_ne_zero hne))
      rw [hclear.deferred] at hd
      cases hd
    exact absurd hfailed (hushed_not_failed ⟨hx, (hb.deferred hd).2, hdry⟩ p)
  | grant credit =>
    refine ⟨credit, rfl, ?_⟩
    have h := onResume_spec hb.unforwarded credit
    change .error e ∈ (s.resume credit).events at he
    change (s.resume credit).disposition = .failed at hfailed
    change s.waiting.length ≤ credit ∧ (s.resume credit).events = s.dataOwed ++ [.error e]
    generalize s.resume credit = r at h he hfailed ⊢
    cases h with
    | finished _ _ _ | partly _ _ _ | trailers _ _ _ | drained _ _ _ _ _ _ => cases hfailed
    | failed _ _ _ _ hle =>
      have howed : .error e ∉ s.dataOwed := by
        unfold dataOwed
        split <;> simp
      rcases List.mem_append.mp he with he | he
      · exact absurd he howed
      · rw [List.mem_singleton.mp he]
        exact ⟨hle, rfl⟩

theorem headers_notMem_fail (s : Response) (block : Headers) (last : Bool) :
    .headers block last ∉ s.fail.events := by
  have h := s.onFail
  generalize s.fail = r at h ⊢
  cases h with
  | deferred _ _ _ => simp
  | delivered _ => simp [deliverError]

/-- Headers are told when they arrive without a marker, and at no other time. -/
theorem headers_of_told (hb : s.Balanced) {a : Act} {block : Headers} {last : Bool}
    (he : .headers block last ∈ (s.act a).events) :
    a = .arrive (.headers block last) ∧ StreamError.ofHeaders? block = none := by
  match a with
  | .arrive (.headers block' last') =>
    have h := s.onHeaders_spec block' last'
    change .headers block last ∈ (s.onHeaders block' last').events at he
    generalize s.onHeaders block' last' = r at h he
    cases h with
    | failing _ _ => exact absurd he (headers_notMem_fail _ _ _)
    | marked _ _ => cases he
    | completing hm hl =>
      obtain ⟨rfl, rfl⟩ : block = block' ∧ last = true := by simpa using he
      exact ⟨by rw [hl], hm⟩
    | passed hm hl =>
      obtain ⟨rfl, rfl⟩ : block = block' ∧ last = false := by simpa using he
      exact ⟨by rw [hl], hm⟩
  | .arrive (.data bytes last') =>
    have h := s.onData_spec bytes last'
    change .headers block last ∈ (s.onData bytes last').events at he
    generalize s.onData bytes last' = r at h he
    cases h with
    | failing _ _ => exact absurd he (headers_notMem_fail _ _ _)
    | suppressed _ _ | empty _ _ _ | held _ _ _ _ => cases he
    | passed _ _ _ => cases last' <;> simp [forwardData] at he
    | split _ _ _ _ _ => simp [Reply.after, hold] at he
  | .arrive (.trailers block') =>
    have h := s.onTrailers_spec block'
    change .headers block last ∈ (s.onTrailers block').events at he
    generalize s.onTrailers block' = r at h he
    cases h with
    | failing _ => exact absurd he (headers_notMem_fail _ _ _)
    | parked _ _ _ => cases he
    | passed _ _ => simp [forwardTrailers] at he
  | .arrive (.reset _) =>
    have h := s.onReset_spec
    change .headers block last ∈ s.onReset.events at he
    generalize s.onReset = r at h he
    cases h with
    | ignored _ => cases he
    | failing _ => exact absurd he (headers_notMem_fail _ _ _)
  | .grant credit =>
    have h := onResume_spec hb.unforwarded credit
    have howed : .headers block last ∉ s.dataOwed := by
      unfold dataOwed
      split <;> simp
    change .headers block last ∈ (s.resume credit).events at he
    generalize s.resume credit = r at h he
    cases h with
    | finished _ _ _ | partly _ _ _ => simp at he
    | trailers _ _ _ | failed _ _ _ _ _ => simp [howed] at he
    | drained _ _ _ _ _ _ => exact absurd he howed

end Act

end Response

namespace Client

/-- The run neither cancels the stream under a handle nor grants it credit. -/
def LeftAlone (h : Handle) (ms : List Move) : Prop :=
  ∀ m ∈ ms, m.op ≠ .cancel h ∧ ∀ credit, m.op = .resume h credit → credit = 0

section Stream

variable {c : Client} {id : StreamId} {s : Stream}

/-- What no cancel and no grant does to a stream without credit. -/
theorem hushed_advance (hc : c.Sound) (hs : c.find id = some s) (hh : s.response.Hushed) {m : Move}
    (hm : LeftAlone id.handle [m]) (hp : ∀ p ∈ c.arriving id m, p.isHeaders = false) :
    told id (c.advance m).2 = [] ∧ ∃ t, (c.advance m).1.find id = some t ∧ t.response.Hushed := by
  obtain ⟨hcancel, hgrant⟩ := hm m (List.mem_singleton_self m)
  -- an act that reaches the stream brings a part that is no header block
  have hushes {a : Act} (hop : m.op.handle? = some id.handle) (ha : m.op.act? c.explicit = some a) :
      Response.Hushes (s.response.act a) := by
    cases a with
    | grant credit =>
      cases hmo : m.op <;> rw [hmo] at ha <;> simp [Operation.act?] at ha
      rw [hmo] at hop
      cases hop
      exact absurd (hgrant _ hmo) ha.1.2
    | arrive p =>
      apply Response.hushed_arrive hh
      apply hp
      rw [arriving_of_part (by simp [hs]) hop, m.op.part?_eq c.explicit, ha]
      simp [Act.part?]
  cases serves_advance hc hs m with
  | kept hf hr _ ht => exact ⟨ht, _, hf, hr ▸ hh⟩
  | cancelled hop _ _ _ => exact absurd hop hcancel
  | answered hop ha _ hf hr ht _ =>
    have h := hushes hop ha
    generalize s.response.act _ = r at h hr ht
    cases h with
    | silent _ hnext => exact ⟨ht, _, hf, hr ▸ hnext⟩
  | retired hop ha hfin _ _ _ =>
    have h := hushes hop ha
    generalize s.response.act _ = r at h hfin
    cases h with
    | silent _ _ => cases hfin

theorem hushed_after (hc : c.Sound) (hs : c.find id = some s) (hh : s.response.Hushed)
    {ms : List Move} (hm : LeftAlone id.handle ms) (hp : ∀ p ∈ c.arrivals id ms, p.isHeaders = false) :
    (c.log id ms).flatten = [] ∧ ∃ t, (c.after ms).find id = some t ∧ t.response.Hushed := by
  induction ms generalizing c s with
  | nil => exact ⟨rfl, s, hs, hh⟩
  | cons m ms ih =>
    rw [arrivals_cons] at hp
    have hfirst : LeftAlone id.handle [m] := fun n hn => hm n (by simp [List.mem_singleton.mp hn])
    have hrest : LeftAlone id.handle ms := fun n hn => hm n (List.mem_cons_of_mem m hn)
    obtain ⟨ht, t, hf, hh'⟩ := hushed_advance hc hs hh hfirst fun p hpm => hp p (by simp [hpm])
    obtain ⟨hlog, hend⟩ := ih (sound_advance hc m) hf hh' hrest fun p hpm => hp p (by simp [hpm])
    rw [log_cons, List.flatten_cons, ht, hlog]
    exact ⟨rfl, hend⟩

/-- A registered stream that was told headers has seen them, and they arrived. -/
theorem seen_of_told (hc : c.Sound) (hnone : c.find id = none) {ms : List Move}
    (hs : (c.after ms).find id = some s) {block : Headers} {last : Bool}
    (ht : .headers block last ∈ (c.log id ms).flatten) :
    s.response.headersForwarded = true ∧ ∃ p ∈ c.arrivals id ms, p.isHeaders = true := by
  have hbrought := invariant_of_started hc
    (P := fun _ ps es => ∀ block last, .headers block last ∈ es →
      ∃ p ∈ ps, p.unmarked = true ∧ p.isHeaders = true)
    (fun _ _ _ _ h => by cases h)
    (fun {r ps es a} hb hp _ block last h => by
      rcases List.mem_append.mp h with h | h
      · obtain ⟨p, hmem, hkind⟩ := hp block last h
        exact ⟨p, List.mem_append_left _ hmem, hkind⟩
      · obtain ⟨rfl, hm⟩ := Response.headers_of_told hb h
        refine ⟨.headers block last, ?_, ?_, rfl⟩
        · exact List.mem_append_right _ (List.mem_singleton_self _)
        · simp [ResponsePart.unmarked, hm]) hnone hs
  obtain ⟨p, hmem, hu, hh⟩ := hbrought block last ht
  exact ⟨(carries_after hc hnone hs).seen ⟨p, hmem, hu⟩, p, hmem, hh⟩

/-- With flow control, a registered stream that was told headers and whose credit
is all spent waits for the next grant. -/
theorem hushed_of_spent (hc : c.Sound) (hx : c.explicit = true) (hnone : c.find id = none)
    {ms : List Move} (hs : (c.after ms).find id = some s) {block : Headers} {last : Bool}
    (ht : .headers block last ∈ (c.log id ms).flatten)
    (hspent : Happening.Spent (c.chronicle id ms)) : s.response.Hushed := by
  have hco := course_of_find hc hnone hs
  obtain ⟨-, hcredit⟩ := hco.paid c.balanced_newborn hx rfl
  exact ⟨hco.explicit.trans hx, (seen_of_told hc hnone hs ht).1, hcredit ▸ hspent.outstanding_eq⟩

/-- A reset that counts, on a stream without credit, is put off. -/
theorem deferred_of_reset (hc : c.Sound) (hs : c.find id = some s) (hh : s.response.Hushed)
    (he : s.response.endReceived = false) {m : Move} {reason : ResetReason}
    (hm : m.op = .onReset id.handle reason) :
    ∃ t, (c.advance m).1.find id = some t ∧ t.response.explicit = true ∧
      t.response.errorDeferred = true := by
  have hact : m.op.act? c.explicit = some (.arrive (.reset reason)) := by rw [hm]; rfl
  have hreply := Response.hushed_arrive hh (p := .reset reason) rfl
  cases serves_advance hc hs m with
  | kept _ _ hop _ =>
    have hidle := (hop (by rw [hm]; rfl)).2.1
    rw [hact] at hidle
    cases hidle
  | cancelled hop _ _ _ =>
    rw [hm] at hop
    cases hop
  | @answered a t _ ha _ hf hr _ _ =>
    obtain rfl := Option.some.inj (hact.symm.trans ha)
    refine ⟨t, hf, ?_, ?_⟩
    · rw [hr, Response.explicit_act]
      exact hh.explicit
    · rw [hr]
      exact Response.hushed_reset hh he
  | retired _ ha hfin _ _ _ =>
    obtain rfl := Option.some.inj (hact.symm.trans ha)
    generalize s.response.act _ = r at hreply hfin
    cases hreply
    cases hfin

/-- Where an error was put off, a move that tells an error grants credit for all
the data that waits, and tells the error after that data. -/
theorem error_after_deferral (hc : c.Sound) (hs : c.find id = some s)
    (hx : s.response.explicit = true) (hd : s.response.errorDeferred = true) {n : Move}
    {e : StreamError} (ht : .error e ∈ told id (c.advance n).2) :
    ∃ credit, 0 < credit ∧ n.op = .resume id.handle credit ∧ s.response.waiting.length ≤ credit ∧
      told id (c.advance n).2 = s.response.dataOwed ++ [.error e] := by
  obtain ⟨s', a, hs', hop, ha, -, hev⟩ := final_of_told hc (.inr ⟨e, ht⟩)
  obtain rfl := Option.some.inj (hs.symm.trans hs')
  have hb := (fits_of_find hc hs).balanced
  rw [hev] at ht ⊢
  obtain ⟨credit, rfl, hle, hall⟩ := Response.error_withheld hb hx hd ht
  cases hno : n.op <;> rw [hno] at ha hop <;> simp [Operation.act?] at ha
  cases hop
  obtain ⟨⟨-, hpos⟩, rfl⟩ := ha
  exact ⟨_, Nat.pos_of_ne_zero hpos, rfl, hle, hall⟩

/-- A reset that counts, on a stream without credit, is told by a later grant that
takes in all the data that waits, after that data. -/
theorem error_after_reset (hc : c.Sound) (hs : c.find id = some s) (hh : s.response.Hushed)
    (he : s.response.endReceived = false) {m n : Move} {reason : ResetReason}
    (hm : m.op = .onReset id.handle reason) {later : List Move} {e : StreamError}
    (ht : .error e ∈ told id ((c.after (m :: later)).advance n).2) :
    ∃ credit t, 0 < credit ∧ n.op = .resume id.handle credit ∧
      (c.after (m :: later)).find id = some t ∧ t.response.waiting.length ≤ credit ∧
      told id ((c.after (m :: later)).advance n).2 = t.response.dataOwed ++ [.error e] := by
  obtain ⟨t, hreset, hx, hd⟩ := deferred_of_reset hc hs hh he hm
  have hsound := sound_advance hc m
  obtain ⟨u, -, hu, -⟩ := final_of_told (sound_after hc (m :: later)) (.inr ⟨e, ht⟩)
  obtain ⟨hx', hd'⟩ : u.response.explicit = true ∧ u.response.errorDeferred = true :=
    kept_after hsound (P := fun r => r.explicit = true ∧ r.errorDeferred = true)
      (fun hb hr hf => ⟨(Response.explicit_act _ _).trans hr.1, Response.deferred_act hb hr.2 hf⟩)
      hreset ⟨hx, hd⟩ hu
  obtain ⟨credit, hpos, hop, hle, hall⟩ :=
    error_after_deferral (sound_after hc (m :: later)) hu hx' hd' ht
  exact ⟨credit, u, hpos, hop, hu, hle, hall⟩

end Stream

/-- With flow control, take a registered stream that was told headers and whose
credit is all spent. As long as it is not cancelled and not granted credit,
nothing that happens is told to it, and it stays registered, whatever arrives
that is not a second header block. A reset that comes before the end of the
response is told by a later grant only, which takes in all the data that waits
and tells it first. -/
theorem silent_without_credit (config : Config) (draws : Draws) (ms : List Move)
    (id : StreamId) (hx : config.flowControl.explicit = true) {block : Headers} {last : Bool}
    (hlive : ((ofConfig config draws).after ms).Live id)
    (hseen : .headers block last ∈ ((ofConfig config draws).log id ms).flatten)
    (hspent : Happening.Spent ((ofConfig config draws).chronicle id ms)) :
    let c := ofConfig config draws
    (∀ later, LeftAlone id.handle later →
      (c.arrivals id (ms ++ later)).countP ResponsePart.isHeaders ≤ 1 →
      ((c.after ms).log id later).flatten = [] ∧ (c.after (ms ++ later)).Live id) ∧
    ∀ m reason, m.op = .onReset id.handle reason → (∀ p ∈ c.arrivals id ms, p.ends = false) →
      ∀ later n e, .error e ∈ told id ((c.after (ms ++ m :: later)).advance n).2 →
        ∃ credit s, 0 < credit ∧ n.op = .resume id.handle credit ∧
          (c.after (ms ++ m :: later)).find id = some s ∧ s.response.waiting.length ≤ credit ∧
          told id ((c.after (ms ++ m :: later)).advance n).2 = s.response.dataOwed ++ [.error e] := by
  intro c
  have hc : c.Sound := sound_ofConfig config draws
  have hnone : c.find id = none := rfl
  have hms := sound_after hc ms
  obtain ⟨s, hs⟩ := Option.isSome_iff_exists.mp ((live_iff hms id).mp hlive)
  have hh : s.response.Hushed := hushed_of_spent hc hx hnone hs hseen hspent
  refine ⟨fun later halone hcount => ?_, fun m reason hm hopen later n e ht => ?_⟩
  · obtain ⟨-, p, hp, hkind⟩ := seen_of_told hc hnone hs hseen
    rw [arrivals_append, List.countP_append] at hcount
    have hfirst : 0 < (c.arrivals id ms).countP ResponsePart.isHeaders :=
      List.countP_pos_iff.mpr ⟨p, hp, hkind⟩
    have hnomore : ((c.after ms).arrivals id later).countP ResponsePart.isHeaders = 0 := by omega
    have hplain : ∀ q ∈ (c.after ms).arrivals id later, q.isHeaders = false := by
      simpa using List.countP_eq_zero.mp hnomore
    obtain ⟨hlog, t, ht, -⟩ := hushed_after hms hs hh halone hplain
    refine ⟨hlog, ?_⟩
    rw [live_iff (sound_after hc _), after_append, ht]
    rfl
  · have hunended : s.response.endReceived = false := by
      rw [(carries_after hc hnone hs).heard.ended]
      simpa using hopen
    rw [after_append] at ht ⊢
    exact error_after_reset hms hs hh hunended hm ht

/-- Two of three bytes are told and use up the credit. A reset, a frame that
comes after it and a grant of nothing are silent; the grant that follows tells
the third byte, and then the error. -/
theorem silent_until_grant_after_reset :
    let config : Config := { flowControl := { explicit := true } }
    let c := ofConfig config {}
    let id : StreamId := ⟨⟨1⟩, 0⟩
    let block : Headers := ⟨[(":status", "200")]⟩
    let ms := [Operation.start ⟨1⟩, .onHeaders ⟨1⟩ block false, .resume ⟨1⟩ 2,
      .onData ⟨1⟩ [1, 2, 3] false].map (Move.mk · .generic)
    let m : Move := ⟨.onReset ⟨1⟩ .overflow, .generic⟩
    let later := [Operation.onData ⟨1⟩ [4] false, .resume ⟨1⟩ 0].map (Move.mk · .generic)
    let n : Move := ⟨.resume ⟨1⟩ 1, .generic⟩
    (config.flowControl.explicit = true ∧ (c.after ms).Live id ∧
      .headers block false ∈ (c.log id ms).flatten ∧ Happening.Spent (c.chronicle id ms)) ∧
      ((c.after ms).log id (m :: later)).flatten = [] ∧ (c.after (ms ++ m :: later)).Live id ∧
      ∃ credit, n.op = .resume id.handle credit ∧
        told id ((c.after (ms ++ m :: later)).advance n).2 = [.data [3] false, .error .reset] := by
  intro config c id block ms m later n
  have hlive : (c.after ms).Live id := by
    rw [live_iff (sound_after (sound_ofConfig config {}) ms)]
    decide
  have hseen : .headers block false ∈ (c.log id ms).flatten := by decide
  have hspent : Happening.Spent (c.chronicle id ms) := by
    rw [Happening.spent_iff (by decide)]
    decide
  have halone : LeftAlone ⟨1⟩ (m :: later) := by
    intro k hk
    simp only [m, later, List.map_cons, List.map_nil, List.mem_cons, List.not_mem_nil, or_false] at hk
    rcases hk with rfl | rfl | rfl <;> simp
  obtain ⟨hsilent, herror⟩ := silent_without_credit config {} ms id rfl hlive hseen hspent
  obtain ⟨hlog, hend⟩ := hsilent (m :: later) halone (by decide)
  have htold : told id ((c.after (ms ++ m :: later)).advance n).2 = [.data [3] false, .error .reset] := by
    decide
  have hmem : .error .reset ∈ told id ((c.after (ms ++ m :: later)).advance n).2 := by simp [htold]
  obtain ⟨credit, -, -, hop, -⟩ := herror m .overflow rfl (by decide) later n .reset hmem
  exact ⟨⟨rfl, hlive, hseen, hspent⟩, hlog, hend, credit, hop, htold⟩

end Client
end HttpExchange
