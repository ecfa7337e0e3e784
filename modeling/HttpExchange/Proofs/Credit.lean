/-
# Credit is not exceeded

With flow control a chunk of data is told against a grant and uses all of it up,
so the credit outstanding at any moment is that of the last grant if no data was
told after it, and none otherwise (`Happening.outstanding`). The response side
keeps just this number (`Response.Course.paid`). Every chunk finds credit
outstanding and carries no more (`Paid`): it goes with the last grant before it,
and no two chunks go with the same one.

Key definitions: `Happening.outstanding`, `Paid`, `Matched`, `Response.Spends`.
Key theorems: `Happening.exists_grant`, `Paid.matched`, `Paid.bytes_le`,
`Response.spends_act`, `Response.Course.paid`, `Client.credit_never_exceeded`.
-/
import Mathlib.Algebra.Ring.Nat
import Mathlib.Data.List.Induction
import Mathlib.Tactic.Choose
import HttpExchange.Proofs.Conservation
import HttpExchange.Proofs.Course

namespace HttpExchange

/-- The event brings data. -/
def Event.isData : Event → Bool
  | data _ _ => true
  | _ => false

namespace Happening

/-- Neither a grant nor data. -/
def isNeutral : Happening → Bool
  | act (.grant _) => false
  | told (.data _ _) => false
  | _ => true

/-- The credit that a happening leaves of what there was: a grant takes its
place, and data uses it up. -/
def leaves (credit : Nat) : Happening → Nat
  | act (.grant k) => k
  | told (.data _ _) => 0
  | _ => credit

/-- The credit outstanding after a chronicle. -/
def outstanding (h : List Happening) : Nat := h.foldl leaves 0

@[simp] theorem outstanding_nil : outstanding [] = 0 := rfl

@[simp] theorem outstanding_concat (h : List Happening) (x : Happening) :
    outstanding (h ++ [x]) = x.leaves (outstanding h) := by
  unfold outstanding
  rw [List.foldl_append]
  rfl

theorem leaves_neutral {x : Happening} (hx : x.isNeutral = true) (credit : Nat) :
    x.leaves credit = credit := by
  match x with
  | act (.arrive _) => rfl
  | act (.grant _) => cases hx
  | told (.data _ _) => cases hx
  | told (.headers _ _) | told (.trailers _) | told (.error _) | told .complete | told .cancel => rfl

/-- Credit that is outstanding was given by the last grant, and no data was told
after that. -/
theorem exists_grant {h : List Happening} (ho : 0 < outstanding h) :
    ∃ before after, h = before ++ .act (.grant (outstanding h)) :: after ∧
      ∀ x ∈ after, x.isNeutral = true := by
  induction h using List.reverseRecOn with
  | nil => exact absurd ho (Nat.lt_irrefl 0)
  | append_singleton h x ih =>
    by_cases hx : x.isNeutral = true
    · rw [outstanding_concat, leaves_neutral hx] at ho ⊢
      obtain ⟨before, after, heq, hafter⟩ := ih ho
      refine ⟨before, after ++ [x], ?_, ?_⟩
      · calc h ++ [x] = (before ++ .act (.grant (outstanding h)) :: after) ++ [x] := by rw [← heq]
          _ = before ++ .act (.grant (outstanding h)) :: (after ++ [x]) := by simp
      · intro y hy
        rcases List.mem_append.mp hy with hy | hy
        · exact hafter y hy
        · rw [List.mem_singleton.mp hy]
          exact hx
    · match x with
      | act (.grant k) =>
        rw [outstanding_concat]
        exact ⟨h, [], rfl, by simp⟩
      | told (.data _ _) =>
        rw [outstanding_concat] at ho
        exact absurd ho (Nat.lt_irrefl 0)
      | act (.arrive _) | told (.headers _ _) | told (.trailers _) | told (.error _)
      | told .complete | told .cancel => exact absurd rfl hx

end Happening

open Happening (outstanding parts events grants)

/-- Every chunk of data in the chronicle finds credit outstanding and carries no
more than that. -/
inductive Paid : List Happening → Prop
  | nothing : Paid []
  | other {h : List Happening} {x : Happening} : Paid h →
      (∀ bytes last, x ≠ .told (.data bytes last)) → Paid (h ++ [x])
  | data {h : List Happening} {bytes : Bytes} (last : Bool) : Paid h → 0 < outstanding h →
      bytes.length ≤ outstanding h → Paid (h ++ [.told (.data bytes last)])

/-- The chunks of a chronicle go with its grants: each with the last one before
it, which pays for it, and no two with the same one. -/
structure Matched (h : List Happening) (grant : Nat → Nat) : Prop where
  earlier {i : Nat} {bytes : Bytes} {last : Bool} :
    h[i]? = some (.told (.data bytes last)) → grant i < i
  pays {i : Nat} {bytes : Bytes} {last : Bool} : h[i]? = some (.told (.data bytes last)) →
    ∃ credit, h[grant i]? = some (.act (.grant credit)) ∧ 0 < credit ∧ bytes.length ≤ credit
  latest {i j : Nat} {bytes : Bytes} {last : Bool} {credit : Nat} :
    h[i]? = some (.told (.data bytes last)) → h[j]? = some (.act (.grant credit)) → j < i →
      j ≤ grant i
  ordered {i j : Nat} {bytes bytes' : Bytes} {last last' : Bool} :
    h[i]? = some (.told (.data bytes last)) → h[j]? = some (.told (.data bytes' last')) → i < j →
      grant i < grant j

section Paid

variable {h : List Happening}

/-- What a chunk at a place of a chronicle finds. -/
theorem Paid.at (hp : Paid h) {i : Nat} {bytes : Bytes} {last : Bool}
    (hi : h[i]? = some (.told (.data bytes last))) :
    0 < outstanding (h.take i) ∧ bytes.length ≤ outstanding (h.take i) := by
  induction hp with
  | nothing => cases hi
  | @other h x _ hx ih =>
    have hlt : i < h.length := by
      by_contra hle
      rw [List.getElem?_append_right (by omega)] at hi
      have hmem := List.mem_of_getElem? hi
      exact hx bytes last (List.mem_singleton.mp hmem).symm
    rw [List.getElem?_append_left hlt] at hi
    rw [List.take_append_of_le_length (Nat.le_of_lt hlt)]
    exact ih hi
  | @data h b l _ hpos hle ih =>
    by_cases hlt : i < h.length
    · rw [List.getElem?_append_left hlt] at hi
      rw [List.take_append_of_le_length (Nat.le_of_lt hlt)]
      exact ih hi
    · have hlen := (List.getElem?_eq_some_iff.mp hi).1
      rw [List.length_append, List.length_singleton] at hlen
      obtain rfl : i = h.length := by omega
      rw [List.getElem?_concat_length, Option.some.injEq] at hi
      cases hi
      rw [List.take_left]
      exact ⟨hpos, hle⟩

/-- Before each chunk stands the grant that pays for it, with nothing but
neutral happenings between the two. -/
theorem Paid.granted (hp : Paid h) {i : Nat} {bytes : Bytes} {last : Bool}
    (hi : h[i]? = some (.told (.data bytes last))) :
    ∃ g, g < i ∧ (∃ credit, h[g]? = some (.act (.grant credit)) ∧ 0 < credit ∧ bytes.length ≤ credit) ∧
      ∀ j, g < j → j < i → ∀ x, h[j]? = some x → x.isNeutral = true := by
  obtain ⟨hpos, hle⟩ := hp.at hi
  obtain ⟨before, after, heq, hneutral⟩ := Happening.exists_grant hpos
  have hlen : i < h.length := (List.getElem?_eq_some_iff.mp hi).1
  have hsum := congrArg List.length heq
  rw [List.length_take_of_le (Nat.le_of_lt hlen), List.length_append, List.length_cons] at hsum
  have hin (j : Nat) (hj : j < i) : h[j]? = (before ++ .act (.grant (outstanding (h.take i))) :: after)[j]? := by
    rw [← heq, List.getElem?_take_of_lt hj]
  refine ⟨before.length, by omega, ⟨outstanding (h.take i), ?_, hpos, hle⟩, fun j hgj hji x hx => ?_⟩
  · rw [hin _ (by omega), List.getElem?_append_right (Nat.le_refl _), Nat.sub_self]
    rfl
  · rw [hin j hji, List.getElem?_append_right (Nat.le_of_lt hgj)] at hx
    obtain ⟨k, hk⟩ := Nat.exists_eq_add_of_lt hgj
    rw [show j - before.length = k + 1 by omega, List.getElem?_cons_succ] at hx
    exact hneutral x (List.mem_of_getElem? hx)

/-- The chunks go with grants of their own, in the same order. -/
theorem Paid.matched (hp : Paid h) : ∃ grant, Matched h grant := by
  have hall (i : Nat) : ∃ g, ∀ bytes last, h[i]? = some (.told (.data bytes last)) →
      g < i ∧ (∃ credit, h[g]? = some (.act (.grant credit)) ∧ 0 < credit ∧ bytes.length ≤ credit) ∧
      ∀ j, g < j → j < i → ∀ x, h[j]? = some x → x.isNeutral = true := by
    by_cases hdata : ∃ bytes last, h[i]? = some (.told (.data bytes last))
    · obtain ⟨bytes, last, hi⟩ := hdata
      obtain ⟨g, hg⟩ := hp.granted hi
      refine ⟨g, fun bytes' last' hi' => ?_⟩
      cases hi.symm.trans hi'
      exact hg
    · exact ⟨0, fun bytes last hi => absurd ⟨bytes, last, hi⟩ hdata⟩
  choose grant hgrant using hall
  refine ⟨grant, fun hi => (hgrant _ _ _ hi).1, fun hi => (hgrant _ _ _ hi).2.1, ?_, ?_⟩
  · intro i j bytes last credit hi hj hlt
    by_contra hle
    cases (hgrant i _ _ hi).2.2 j (by omega) hlt _ hj
  · intro i j bytes last bytes' last' hi hj hlt
    -- the earlier chunk is not neutral, so it stands before the later grant
    have hearlier := (hgrant i _ _ hi).1
    by_contra hle
    cases (hgrant j _ _ hj).2.2 i (by omega) hlt _ hi

/-- A happening other than data tells no bytes, and gives what credit it leaves
beyond what there was. -/
theorem other_covered {x : Happening} (hx : ∀ bytes last, x ≠ .told (.data bytes last))
    (credit : Nat) :
    (events [x]).filter Event.isData = [] ∧ delivered (events [x]) = [] ∧
      x.leaves credit ≤ credit + (grants [x]).sum ∧
      min (x.leaves credit) 1 ≤ min credit 1 + (grants [x]).length := by
  match x with
  | .act (.grant k) =>
    have hgrants : grants [.act (.grant k)] = [k] := rfl
    rw [hgrants, List.sum_singleton, List.length_singleton]
    exact ⟨rfl, rfl, Nat.le_add_left .., by omega⟩
  | .told (.data bytes last) => exact absurd rfl (hx bytes last)
  | .act (.arrive _) | .told (.headers _ _) | .told (.trailers _) | .told (.error _)
  | .told .complete | .told .cancel => exact ⟨rfl, rfl, Nat.le_refl _, Nat.le_refl _⟩

/-- The bytes told, with the credit outstanding, are covered by the grants. -/
theorem Paid.bytes_le (hp : Paid h) :
    (delivered (events h)).length + outstanding h ≤ (grants h).sum := by
  induction hp with
  | nothing => exact Nat.le_refl 0
  | @other h x _ hx ih =>
    obtain ⟨-, hnone, hleft, -⟩ := other_covered hx (outstanding h)
    rw [Happening.outstanding_concat, Happening.events_append, Happening.grants_append,
      delivered_append, hnone, List.append_nil, List.sum_append]
    omega
  | @data h bytes last _ _ hle ih =>
    have hevents : events [.told (.data bytes last)] = [.data bytes last] := rfl
    have hleft : (Happening.told (.data bytes last)).leaves (outstanding h) = 0 := rfl
    have hsum : (grants [.told (.data bytes last)]).sum = 0 := rfl
    rw [Happening.outstanding_concat, Happening.events_append, Happening.grants_append,
      delivered_append, hevents, hleft, List.sum_append, hsum]
    simp only [delivered_cons, delivered_nil, Event.payload, List.append_nil, List.length_append]
    omega

/-- The chunks told, with one for credit outstanding, are no more than the
grants. -/
theorem Paid.count_le (hp : Paid h) :
    ((events h).filter Event.isData).length + min (outstanding h) 1 ≤ (grants h).length := by
  induction hp with
  | nothing => exact Nat.le_refl 0
  | @other h x _ hx ih =>
    obtain ⟨hnone, -, -, hleft⟩ := other_covered hx (outstanding h)
    rw [Happening.outstanding_concat, Happening.events_append, Happening.grants_append,
      List.filter_append, hnone, List.append_nil, List.length_append]
    omega
  | @data h bytes last _ hpos _ ih =>
    have hone : (events [.told (.data bytes last)]).filter Event.isData = [.data bytes last] := rfl
    have hleft : (Happening.told (.data bytes last)).leaves (outstanding h) = 0 := rfl
    have hgrants : grants [.told (.data bytes last)] = [] := rfl
    rw [Happening.outstanding_concat, Happening.events_append, Happening.grants_append,
      List.filter_append, hone, hleft, hgrants, List.append_nil, List.length_append,
      List.length_singleton]
    omega

/-- Events without data cost nothing. -/
theorem Paid.quiet (hp : Paid h) {es : List Event} (he : ∀ e ∈ es, e.isData = false) :
    Paid (h ++ es.map .told) ∧ outstanding (h ++ es.map .told) = outstanding h := by
  induction es generalizing h with
  | nil => simpa using hp
  | cons e es ih =>
    obtain ⟨hhead, htail⟩ := List.forall_mem_cons.mp he
    have hnext : Paid (h ++ [.told e]) := by
      apply hp.other
      rintro bytes last ⟨⟩
      cases hhead
    have hsame : outstanding (h ++ [.told e]) = outstanding h := by
      rw [Happening.outstanding_concat]
      exact Happening.leaves_neutral (by cases e <;> first | rfl | cases hhead) _
    obtain ⟨hpaid, hout⟩ := ih hnext htail
    rw [List.map_cons, List.append_cons]
    exact ⟨hpaid, hout.trans hsame⟩

end Paid

/-! ### The response side -/

namespace Response

/-- What a reply makes of the credit that it finds. Without data the credit
stays; one chunk, with no other after it, is within the credit and uses it up. A
chunk is empty only where it carries the end. -/
inductive Spends (explicit : Bool) (credit : Nat) (r : Reply) : Prop
  | kept : (∀ e ∈ r.events, e.isData = false) →
      (r.disposition.isFinal = false → r.state.credit = credit) → Spends explicit credit r
  | spent {bytes : Bytes} {last : Bool} {rest : List Event} : r.events = .data bytes last :: rest →
      (∀ e ∈ rest, e.isData = false) → (bytes = [] → last = true) →
      (explicit = true → 0 < credit ∧ bytes.length ≤ credit) →
      (r.disposition.isFinal = false → r.state.credit = 0) → Spends explicit credit r

section Spends

variable {s : Response}

/-- The front that is cut off at the credit is not empty. -/
theorem front_ne_nil {bytes : Bytes} {credit : Nat} (hpos : 0 < credit)
    (hlt : credit < bytes.length) : bytes.take credit ≠ [] := by
  apply List.ne_nil_of_length_pos
  rwa [List.length_take_of_le (Nat.le_of_lt hlt)]

theorem spends_fail {t : Response} (explicit : Bool) (ht : t.credit = s.credit) :
    Spends explicit s.credit t.fail := by
  have h := t.onFail
  generalize t.fail = r at h ⊢
  cases h with
  | deferred _ _ _ => exact .kept (by simp) fun _ => ht
  | delivered _ => exact .kept (by simp [deliverError, Event.isData]) nofun

theorem spends_onHeaders (s : Response) (block : Headers) (last : Bool) :
    Spends s.explicit s.credit (s.onHeaders block last) := by
  have h := s.onHeaders_spec block last
  generalize s.onHeaders block last = r at h ⊢
  cases h with
  | failing _ _ =>
    apply spends_fail
    rw [receiveEnd_eq]
  | marked _ _ => exact .kept (by simp) fun _ => rfl
  | completing _ _ => exact .kept (by simp [Event.isData]) nofun
  | passed _ _ => exact .kept (by simp [Event.isData]) fun _ => rfl

theorem spends_onData (s : Response) (bytes : Bytes) (last : Bool) :
    Spends s.explicit s.credit (s.onData bytes last) := by
  have h := s.onData_spec bytes last
  generalize s.onData bytes last = r at h ⊢
  cases h with
  | failing _ _ =>
    apply spends_fail
    rw [receiveEnd_eq]
  | suppressed _ _ | empty _ _ _ => exact .kept (by simp) fun _ => rfl
  | passed _ hfull hfree =>
    have hwithin := fun hx => (hfree hx).2
    cases last with
    | true => exact .spent rfl (by simp [Event.isData]) hfull hwithin nofun
    | false => exact .spent rfl (by simp) hfull hwithin fun _ => rfl
  | split _ _ _ hpos hlt =>
    apply Spends.spent rfl (by simp [hold])
    · exact fun hempty => absurd hempty (front_ne_nil hpos hlt)
    · exact fun _ => ⟨hpos, List.length_take_le ..⟩
    · exact fun _ => rfl
  | held _ _ _ _ =>
    rw [receiveEnd_eq]
    exact .kept (by simp [hold]) fun _ => rfl

theorem spends_onTrailers (s : Response) (block : Headers) :
    Spends s.explicit s.credit (s.onTrailers block) := by
  have h := s.onTrailers_spec block
  generalize s.onTrailers block = r at h ⊢
  cases h with
  | failing _ =>
    apply spends_fail
    rw [receiveEnd_eq]
  | parked _ _ _ => exact .kept (by simp) fun _ => rfl
  | passed _ _ => exact .kept (by simp [forwardTrailers, Event.isData]) nofun

theorem spends_onReset (s : Response) : Spends s.explicit s.credit s.onReset := by
  have h := s.onReset_spec
  generalize s.onReset = r at h ⊢
  cases h with
  | ignored _ => exact .kept (by simp) fun _ => rfl
  | failing _ => exact spends_fail _ rfl

/-- What waits is told against a grant first, if anything waits; the rest of the
reply holds no data. -/
theorem spends_resume (hb : s.Balanced) {credit : Nat} (hpos : 0 < credit) :
    Spends s.explicit credit (s.resume credit) := by
  have h := onResume_spec hb.unforwarded credit
  generalize s.resume credit = r at h ⊢
  -- the replies that tell all that waits differ in what they tell after it
  have owing {r : Reply} {rest : List Event} (hle : s.waiting.length ≤ credit)
      (hevents : r.events = s.dataOwed ++ rest) (hrest : ∀ e ∈ rest, e.isData = false)
      (hleft : r.disposition.isFinal = false →
        r.state.credit = if s.waiting = [] then credit else 0) : Spends s.explicit credit r := by
    unfold dataOwed at hevents
    by_cases hw : s.waiting = []
    · rw [if_pos hw] at hevents hleft
      exact .kept (by rwa [hevents]) hleft
    · rw [if_neg hw] at hevents hleft
      exact .spent hevents hrest (fun h => absurd h hw) (fun _ => ⟨hpos, hle⟩) hleft
  cases h with
  | finished _ _ hle => exact .spent rfl (by simp [Event.isData]) (fun _ => rfl) (fun _ => ⟨hpos, hle⟩) nofun
  | partly _ hlt _ =>
    apply Spends.spent rfl (by simp)
    · exact fun hempty => absurd hempty (front_ne_nil hpos hlt)
    · exact fun _ => ⟨hpos, List.length_take_le ..⟩
    · exact fun _ => rfl
  | trailers _ _ hle => exact owing hle rfl (by simp [Event.isData]) nofun
  | failed _ _ _ _ hle => exact owing hle rfl (by simp [Event.isData]) nofun
  | drained _ _ _ _ hle _ => exact owing hle (List.append_nil _).symm (by simp) fun _ => rfl

/-- Whatever happens, a reply spends no more than the credit it finds, which is
that of the grant if it is one. -/
theorem spends_act (hb : s.Balanced) {a : Act} (ha : s.Admits a) :
    Spends s.explicit ((Happening.act a).leaves s.credit) (s.act a) := by
  match a with
  | .arrive (.headers block last) => exact s.spends_onHeaders block last
  | .arrive (.data bytes last) => exact s.spends_onData bytes last
  | .arrive (.trailers block) => exact s.spends_onTrailers block
  | .arrive (.reset _) => exact s.spends_onReset
  | .grant _ => exact spends_resume hb ha.2

/-- An empty chunk carries the end. -/
theorem data_ne_nil (hb : s.Balanced) {a : Act} (ha : s.Admits a) {bytes : Bytes}
    (he : .data bytes false ∈ (s.act a).events) : bytes ≠ [] := by
  cases spends_act hb ha with
  | kept hnone _ => cases hnone _ he
  | spent hevents hrest hfull _ _ =>
    rw [hevents] at he
    rcases List.mem_cons.mp he with he | he
    · obtain ⟨rfl, rfl⟩ := Event.data.inj he
      exact fun h => Bool.false_ne_true (hfull h)
    · cases hrest _ he

/-- A reply that keeps to the credit outstanding continues a chronicle that is
paid for, and leaves the credit that its state holds. -/
theorem Spends.paid {h : List Happening} {a : Act} {r : Reply}
    (hr : Spends true (outstanding (h ++ [.act a])) r) (hp : Paid h) :
    Paid (h ++ .act a :: r.events.map .told) ∧ (r.disposition.isFinal = false →
      outstanding (h ++ .act a :: r.events.map .told) = r.state.credit) := by
  have hact : Paid (h ++ [.act a]) := hp.other nofun
  rw [List.append_cons]
  cases hr with
  | kept hnone hleft =>
    obtain ⟨hpaid, hout⟩ := hact.quiet hnone
    exact ⟨hpaid, fun hf => hout.trans (hleft hf).symm⟩
  | spent hevents hrest _ hwithin hleft =>
    obtain ⟨hpos, hle⟩ := hwithin rfl
    obtain ⟨hpaid, hout⟩ := (Paid.data _ hact hpos hle).quiet hrest
    rw [hevents, List.map_cons, List.append_cons]
    refine ⟨hpaid, fun hf => hout.trans ?_⟩
    rw [Happening.outstanding_concat, hleft hf]
    rfl

end Spends

variable {s t : Response} {h : List Happening}

/-- With flow control every chunk told along a course is paid for, and the
response side holds the credit that is outstanding. -/
theorem Course.paid (hco : Course s h t) (hb : s.Balanced) (hx : s.explicit = true)
    (hcredit : s.credit = 0) : Paid h ∧ outstanding h = t.credit := by
  induction hco with
  | start => exact ⟨.nothing, hcredit.symm⟩
  | @act h t a hco ha hf ih =>
    have hspends := spends_act (hco.balanced hb) ha
    rw [hco.explicit, hx, ← ih.2, ← Happening.outstanding_concat] at hspends
    obtain ⟨hpaid, hout⟩ := hspends.paid ih.1
    exact ⟨hpaid, hout hf⟩

theorem Ends.paid (he : Ends s h) (hb : s.Balanced) (hx : s.explicit = true)
    (hcredit : s.credit = 0) : Paid h := by
  cases he with
  | @acted h t a hco ha _ =>
    obtain ⟨hpaid, hout⟩ := hco.paid hb hx hcredit
    have hspends := spends_act (hco.balanced hb) ha
    rw [hco.explicit, hx, ← hout, ← Happening.outstanding_concat] at hspends
    exact (hspends.paid hpaid).1
  | cancelled hco => exact (hco.paid hb hx hcredit).1.other nofun

end Response

/-! ### Clients -/

namespace Client

/-- With flow control every chunk that a stream is told is paid for. -/
theorem paid_chronicle {c : Client} (hc : c.Sound) (hx : c.explicit = true) {id : StreamId}
    (hnone : c.find id = none) (ms : List Move) : Paid (c.chronicle id ms) := by
  cases fared_after hc hnone ms with
  | unborn _ hch => exact hch ▸ .nothing
  | going _ hco => exact (hco.paid c.balanced_newborn hx rfl).1
  | ended _ he => exact he.paid c.balanced_newborn hx rfl

/-- With flow control every chunk that a stream is told goes with a grant of its
own: the last one before it, whose credit it does not exceed. So there are no
more chunks than grants, and no more bytes than credit granted. In either mode no
chunk is empty unless it carries the end. -/
theorem credit_never_exceeded (config : Config) (draws : Draws) (ms : List Move)
    (id : StreamId) :
    let c := ofConfig config draws
    let h := c.chronicle id ms
    (config.flowControl.explicit = true →
      (∃ grant, Matched h grant) ∧
      ((c.log id ms).flatten.filter Event.isData).length ≤ (Happening.grants h).length ∧
      (delivered (c.log id ms).flatten).length ≤ (Happening.grants h).sum) ∧
    ∀ bytes, .data bytes false ∈ (c.log id ms).flatten → bytes ≠ [] := by
  intro c h
  have hc : c.Sound := sound_ofConfig config draws
  have hnone : c.find id = none := rfl
  refine ⟨fun hx => ?_, fun bytes he => ?_⟩
  · have hpaid : Paid h := paid_chronicle hc hx hnone ms
    rw [← events_chronicle]
    refine ⟨hpaid.matched, ?_, ?_⟩
    · exact Nat.le_trans (Nat.le_add_right ..) hpaid.count_le
    · exact Nat.le_trans (Nat.le_add_right ..) hpaid.bytes_le
  · rcases told_of_log hc hnone he with he | ⟨r, a, hb, ha, he⟩
    · cases he
    · exact Response.data_ne_nil hb ha he

/-- A grant lapses, the next one pays for the front of a frame, and a third for
the rest of it: two chunks for three grants. -/
theorem credit_pays_for_split_frame :
    let config : Config := { flowControl := { explicit := true } }
    let c := ofConfig config {}
    let id : StreamId := ⟨⟨1⟩, 0⟩
    let ms := [Operation.start ⟨1⟩, .resume ⟨1⟩ 7, .onHeaders ⟨1⟩ ⟨[(":status", "200")]⟩ false,
      .resume ⟨1⟩ 2, .onData ⟨1⟩ [1, 2, 3] false, .resume ⟨1⟩ 4].map (Move.mk · .generic)
    config.flowControl.explicit = true ∧ Happening.grants (c.chronicle id ms) = [7, 2, 4] ∧
      ((c.log id ms).flatten.filter Event.isData).length ≤ 3 ∧
      (delivered (c.log id ms).flatten).length ≤ 13 ∧
      Event.data [3] false ∈ (c.log id ms).flatten ∧ ([3] : Bytes) ≠ [] := by
  intro config c id ms
  have hgrants : Happening.grants (c.chronicle id ms) = [7, 2, 4] := by decide
  have hmem : Event.data [3] false ∈ (c.log id ms).flatten := by decide
  obtain ⟨hcredit, hfull⟩ := credit_never_exceeded config {} ms id
  obtain ⟨-, hcount, hbytes⟩ := hcredit rfl
  rw [hgrants] at hcount hbytes
  exact ⟨rfl, hgrants, hcount, hbytes, hmem, hfull [3] hmem⟩

end Client
end HttpExchange
