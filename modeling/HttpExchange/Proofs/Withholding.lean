/-
# Credit and withheld output exclude each other

A response side in explicit mode, after any acts in any order that have not ended
its stream. While it holds credit it withholds nothing: no data, no trailers, no
error, no end of the response. And once the remote side has closed, by an end that
arrived or by a reset before any end, it holds something that will end the stream:
the bare end, the trailers or the error (`Response.credit_excludes_withheld`).

That the remote side has closed is read off the acts, that an ending is held off
the state; `Response.Owing` is what the two share (`Response.kept_exchange`).

Key definitions: `EndArrived`, `ResetAccepted`, `Response.Kept`.
Key theorems: `exists_closes_iff`, `Response.Kept.owing_iff`,
`Response.credit_excludes_withheld`.
-/
import HttpExchange.Proofs.Exchange
import HttpExchange.Proofs.Lifecycle

namespace HttpExchange

/-! ### How the remote side closes -/

/-- The end of the response has arrived. -/
def EndArrived (as : List Act) : Prop := ∃ p, .arrive p ∈ as ∧ p.ends = true

/-- A reset has arrived that counts: the end of the response did not come first. -/
def ResetAccepted (as : List Act) : Prop :=
  ∃ before reason later, as = before ++ .arrive (.reset reason) :: later ∧ ¬ EndArrived before

theorem closes_arrive (p : ResponsePart) :
    (Act.arrive p).closes = true ↔ p.ends = true ∨ ∃ reason, p = .reset reason := by
  cases p with
  | headers _ _ | data _ _ | trailers _ => simp [Act.closes, ResponsePart.ends]
  | reset reason => simp [Act.closes]

/-- Of the acts that close the remote side, the first is an end or a reset that
counts. -/
theorem exists_closes_iff (as : List Act) :
    (∃ a ∈ as, a.closes = true) ↔ EndArrived as ∨ ResetAccepted as := by
  constructor
  · rintro ⟨a, ha, hcl⟩
    cases a with
    | grant _ => cases hcl
    | arrive p =>
      rcases (closes_arrive p).mp hcl with hend | ⟨reason, rfl⟩
      · exact .inl ⟨p, ha, hend⟩
      · obtain ⟨before, later, rfl⟩ := List.append_of_mem ha
        by_cases hbefore : EndArrived before
        · obtain ⟨q, hq, hend⟩ := hbefore
          exact .inl ⟨q, List.mem_append_left _ hq, hend⟩
        · exact .inr ⟨before, reason, later, rfl, hbefore⟩
  · rintro (⟨p, hp, hend⟩ | ⟨before, reason, later, rfl, -⟩)
    · exact ⟨_, hp, (closes_arrive p).mpr (.inl hend)⟩
    · exact ⟨.arrive (.reset reason), by simp, rfl⟩

namespace Response

/-! ### What is kept from act to act -/

/-- What a response side in explicit mode keeps of the acts so far, as long as its
stream has not ended. -/
structure Kept (s : Response) (as : List Act) : Prop where
  explicit : s.explicit = true
  balanced : s.Balanced
  heard : s.Heard (as.filterMap Act.part?)
  owing : s.Owing ↔ ∃ a ∈ as, a.closes = true

variable {s : Response} {as : List Act}

theorem kept_new (high : Nat) : ({ explicit := true, high := high } : Response).Kept [] where
  explicit := rfl
  balanced := balanced_new true high
  heard := heard_new true high
  owing := by simp [Owing]

/-- An act that does not end the stream leaves it owing its ending exactly if it
owed it before or the act closes the remote side. -/
theorem owing_act_iff (hb : s.Balanced) {a : Act} (hf : (s.act a).disposition.isFinal = false) :
    (s.act a).state.Owing ↔ s.Owing ∨ a.closes = true := by
  constructor
  · intro h
    by_contra hn
    rw [not_or, Bool.not_eq_true] at hn
    exact (not_owing_act hb hn.1 hn.2).2 h
  · intro h
    exact owing_act hb h hf

theorem Kept.act (hs : s.Kept as) {a : Act} (hf : (s.act a).disposition.isFinal = false) :
    (s.act a).state.Kept (as ++ [a]) where
  explicit := (s.explicit_act a).trans hs.explicit
  balanced := balanced_act hs.balanced (.inl hs.explicit) hf
  heard := by
    have hparts : (as ++ [a]).filterMap Act.part? = as.filterMap Act.part? ++ a.part?.toList := by
      rw [List.filterMap_append]
      cases a <;> rfl
    rw [hparts]
    exact heard_act hs.heard hs.balanced hf
  owing := by
    rw [owing_act_iff hs.balanced hf, hs.owing]
    simp only [List.mem_append, List.mem_singleton, or_and_right, exists_or, exists_eq_left]

/-- Whatever happens, and in whatever order, this is kept until the stream ends. -/
theorem kept_exchange (high : Nat)
    (hun : (({ explicit := true, high := high } : Response).exchange as).disposition.isFinal = false) :
    (({ explicit := true, high := high } : Response).exchange as).state.Kept as :=
  exchange_invariant (P := Kept) (fun hs hf => hs.act hf) (kept_new high) hun

/-! ### What is withheld -/

theorem Kept.ended_iff (hs : s.Kept as) : s.endReceived = true ↔ EndArrived as := by
  rw [hs.heard.ended, List.any_eq_true]
  constructor
  · rintro ⟨p, hp, hend⟩
    obtain ⟨a, ha, hpart⟩ := List.mem_filterMap.mp hp
    cases a with
    | grant _ => cases hpart
    | arrive q =>
      cases hpart
      exact ⟨p, ha, hend⟩
  · rintro ⟨p, hp, hend⟩
    exact ⟨p, List.mem_filterMap.mpr ⟨_, hp, rfl⟩, hend⟩

/-- What a stream owes is held in one of three forms. -/
theorem Kept.owing_iff (hs : s.Kept as) :
    s.Owing ↔ s.endPending = true ∨ s.trailers.isSome = true ∨ s.errorDeferred = true := by
  have hend : s.endPending = (s.endReceived && s.trailers.isNone) := by
    simp [endPending, hs.balanced.unforwarded]
  unfold Owing
  rw [hend]
  cases ht : s.trailers with
  | none => simp
  | some block =>
    have hreceived : s.endReceived = true := hs.balanced.parked (by simp [ht])
    simp [hreceived]

/-- With flow control, take any acts in any order that have not ended the stream.
If credit is outstanding then nothing is withheld: no data waits, no trailers are
stored, no error is put off, and no end of the response has been received at all.
And a bare end, trailers or an error are recorded exactly if the end of the
response has been received or a reset was accepted. -/
theorem credit_excludes_withheld (high : Nat) (as : List Act)
    (hopen : (({ explicit := true, high := high } : Response).exchange as).disposition =
      .unfinished) :
    let s := (({ explicit := true, high := high } : Response).exchange as).state
    (0 < s.credit → s.waiting = [] ∧ s.trailers = none ∧ s.errorDeferred = false ∧
      s.endReceived = false) ∧
    (s.endReceived = true ↔ EndArrived as) ∧
    (s.endPending = true ∨ s.trailers.isSome = true ∨ s.errorDeferred = true ↔
      EndArrived as ∨ ResetAccepted as) := by
  intro s
  have hs : s.Kept as := kept_exchange high (by rw [hopen]; rfl)
  refine ⟨fun hcredit => ?_, hs.ended_iff, ?_⟩
  · have hclear := hs.balanced.clear (.inr hcredit)
    exact ⟨hclear.waiting, hclear.trailers, hclear.deferred, hclear.unended⟩
  · rw [← hs.owing_iff, hs.owing, exists_closes_iff]

/-- Two streams that have seen headers. In one a grant drains three bytes and the
next leaves credit; in the other a frame is cut at the credit, and the reset that
follows is put off behind the byte that waits. -/
theorem credit_excludes_withheld_drained_and_reset :
    let drained : List Act := [.arrive (.headers {} false), .arrive (.data [1, 2, 3] false),
      .grant 5, .grant 5]
    let reset : List Act := [.arrive (.headers {} false), .grant 2,
      .arrive (.data [1, 2, 3] false), .arrive (.reset .overflow)]
    let r := ({ explicit := true, high := 8 } : Response).exchange drained
    let t := ({ explicit := true, high := 8 } : Response).exchange reset
    (r.disposition = .unfinished ∧ 0 < r.state.credit ∧ r.state.waiting = []) ∧
      t.disposition = .unfinished ∧ t.state.credit = 0 ∧ t.state.waiting = [3] ∧
      (t.state.endPending = true ∨ t.state.trailers.isSome = true ∨
        t.state.errorDeferred = true) := by
  intro drained reset r t
  have hdrained : r.disposition = .unfinished := by decide
  have hreset : t.disposition = .unfinished := by decide
  have hcredit : 0 < r.state.credit := by decide
  have haccepted : ResetAccepted reset := by
    refine ⟨reset.take 3, .overflow, [], rfl, ?_⟩
    rintro ⟨p, hp, hend⟩
    have hp' : p = .headers {} false ∨ p = .data [1, 2, 3] false := by simpa [reset] using hp
    rcases hp' with rfl | rfl <;> cases hend
  have hclear := (credit_excludes_withheld 8 drained hdrained).1 hcredit
  have hheld := (credit_excludes_withheld 8 reset hreset).2.2.mpr (.inr haccepted)
  exact ⟨⟨hdrained, hcredit, hclear.1⟩, hreset, by decide, by decide, hheld⟩

end Response
end HttpExchange
