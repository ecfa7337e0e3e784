/-
# Streams do not interfere

Streams share a registry, the draws, the outcomes and the set of live handles,
and still each goes its own way: what a run does under one handle depends on the
operations that name this handle and on nothing else. Two runs that agree on a
handle put out the same for it, but for serial numbers and for the partition that
a draw picks (`Output.Alike`), and leave the same entry under it. So runs that
agree on every handle come to the same totals, however their operations are
interleaved.

Key definitions: `Operation.onHandle`, `Output.Alike`, `Client.outputsOn`,
`Client.standing`, `Client.Matches`.
Key theorems: `Client.matches_advance`, `Client.same_run`,
`Client.streams_do_not_interfere`.
-/
import Mathlib.Algebra.BigOperators.Group.Finset.Piecewise
import HttpExchange.Proofs.Exchange
import HttpExchange.Proofs.LiveHandles
import HttpExchange.Proofs.Moves
import HttpExchange.Proofs.Outbound
import HttpExchange.Proofs.Shutdown

namespace HttpExchange

/-! ### What two runs may differ in -/

/-- The operations that name a handle, in order. -/
def Operation.onHandle (h : Handle) (ops : List Operation) : List Operation :=
  ops.filter fun op => op.handle? = some h

/-- Two header fields that are the same, or name two partitions of one cluster. -/
inductive Headers.FieldAlike : String × String → String × String → Prop
  | same (e : String × String) : FieldAlike e e
  | partition (family : Family) (network : Network) (alternate alternate' : Bool) :
      FieldAlike (Headers.clusterName, HttpExchange.clusterName family network alternate)
        (Headers.clusterName, HttpExchange.clusterName family network alternate')

/-- Two calls that are the same but for the partition of the cluster. -/
inductive RequestCall.Alike : RequestCall → RequestCall → Prop
  | same (call : RequestCall) : Alike call call
  | headers {block block' : Headers} (last : Bool) :
      List.Forall₂ Headers.FieldAlike block.entries block'.entries →
      Alike (.headers block last) (.headers block' last)

/-- Two outputs that are the same but for the serial of the stream and the
partition of the cluster. -/
inductive Output.Alike : Output → Output → Prop
  | opened (h : Handle) (n n' : Nat) : Alike (.opened ⟨h, n⟩) (.opened ⟨h, n'⟩)
  | told (h : Handle) (n n' : Nat) (e : Event) : Alike (.told ⟨h, n⟩ e) (.told ⟨h, n'⟩ e)
  | called (h : Handle) (n n' : Nat) {call call' : RequestCall} : call.Alike call' →
      Alike (.called ⟨h, n⟩ call) (.called ⟨h, n'⟩ call')
  | released (h : Handle) : Alike (.released h) (.released h)

/-- The handle that an output is about. -/
def Output.handle : Output → Handle
  | .opened id | .told id _ | .called id _ => id.handle
  | .released h => h

/-- The call on a request object. -/
def Output.call? : Output → Option RequestCall
  | .called _ call => some call
  | _ => none

theorem Headers.fieldsAlike_refl (es : List (String × String)) :
    List.Forall₂ Headers.FieldAlike es es :=
  List.forall₂_same.mpr fun e _ => .same e

/-- A draw decides the partition and nothing else. -/
theorem Headers.routed_alike (b : Headers) (network : Network) (alternate alternate' : Bool) :
    List.Forall₂ Headers.FieldAlike (b.routed network alternate).entries
      (b.routed network alternate').entries := by
  have hcluster : Text.lower Headers.clusterName = Headers.clusterName := by decide
  have hapart : Text.alike Headers.clusterName (Text.lower forwardedName) = false := by decide
  have hkept (v : String) : [(Headers.clusterName, v)].filter
      (fun e => !named (Text.lower forwardedName) e) = [(Headers.clusterName, v)] := by
    rw [List.filter_cons_of_pos (by simp [named, hapart]), List.filter_nil]
  unfold routed
  rw [entries_set, entries_set, entries_remove, entries_remove, entries_set, entries_set,
    List.filter_append, List.filter_append, hcluster, hkept, hkept]
  refine List.rel_append (List.rel_append (fieldsAlike_refl _) ?_) (fieldsAlike_refl _)
  exact .cons (.partition _ network alternate alternate') .nil

/-- Alike outputs tell the same events. -/
theorem events_of_alike {xs ys : List Output} (h : List.Forall₂ Output.Alike xs ys) :
    xs.filterMap Output.event? = ys.filterMap Output.event? := by
  induction h with
  | nil => rfl
  | cons hxy _ ih =>
    rw [List.filterMap_cons, List.filterMap_cons, ih]
    cases hxy <;> rfl

/-- Alike outputs make alike calls. -/
theorem calls_of_alike {xs ys : List Output} (h : List.Forall₂ Output.Alike xs ys) :
    List.Forall₂ RequestCall.Alike (xs.filterMap Output.call?) (ys.filterMap Output.call?) := by
  induction h with
  | nil => exact .nil
  | cons hxy _ ih =>
    rw [List.filterMap_cons, List.filterMap_cons]
    cases hxy with
    | called _ _ _ hcall => exact .cons hcall ih
    | opened _ _ _ | told _ _ _ _ | released _ => exact ih

/-- Alike outputs give the same handles back. -/
theorem released_of_alike {xs ys : List Output} (h : List.Forall₂ Output.Alike xs ys) (k : Handle) :
    .released k ∈ xs ↔ .released k ∈ ys := by
  induction h with
  | nil => exact Iff.rfl
  | cons hxy _ ih =>
    rw [List.mem_cons, List.mem_cons, ih]
    cases hxy <;> simp

/-- A send is passed on as one call, up to the partition. -/
theorem PassedAs.alike {m : Move} {call call' : RequestCall} (hcall : PassedAs m call)
    (hcall' : PassedAs m call') : call.Alike call' := by
  cases hcall with
  | headers _ block last network alternate =>
    cases hcall'
    exact .headers last (block.routed_alike network _ _)
  | data _ _ _ _ | trailers _ _ _ =>
    cases hcall'
    exact .same _

/-! ### Outcomes add up -/

namespace Outcomes

instance : Add Outcomes := ⟨add⟩

instance : Zero Outcomes := ⟨{}⟩

theorem add_eq (a b : Outcomes) : a.add b = a + b := rfl

theorem empty_eq : ({} : Outcomes) = 0 := rfl

instance : AddCommMonoid Outcomes where
  add_assoc a b c := by
    show (a.add b).add c = a.add (b.add c)
    simp only [add, Nat.add_assoc]
  zero_add := empty_add
  add_zero := add_empty
  add_comm a b := by
    show a.add b = b.add a
    simp only [add, Nat.add_comm]
  nsmul := nsmulRec

end Outcomes

namespace Client

open Registry (Bucket)

/-- What a run puts out for a handle, in order. -/
def outputsOn (c : Client) (h : Handle) (ms : List Move) : List Output :=
  (c.outputs ms).flatten.filter fun o => o.handle = h

/-- What is registered under a handle, but for the serial of the stream. -/
def standing (c : Client) (h : Handle) : Option (Bucket × Stream) :=
  (c.entry h).map fun e => (e.1, { e.2 with id := ⟨h, 0⟩ })

/-- The live handles once what a run puts out has taken effect. -/
def liveAfter (c : Client) (live : LiveSet) (ms : List Move) : LiveSet :=
  ((c.outputs ms).flatten.foldl Host.emit { live := live }).live

/-- Two clients that are the same to a handle. -/
structure Matches (c d : Client) (h : Handle) : Prop where
  explicit : c.explicit = d.explicit
  high : c.highWatermark = d.highWatermark
  standing : c.standing h = d.standing h

/-! ### One operation -/

section Step

variable {c d : Client} {h : Handle} {m : Move}

theorem standing_none : c.standing h = none ↔ c.entry h = none := by
  unfold standing
  exact Option.map_eq_none_iff

/-- What stands under a handle of a sound client goes by that handle. -/
theorem standing_some (hc : c.Sound) {b : Bucket} {t : Stream} :
    c.standing h = some (b, t) ↔
      t.id = ⟨h, 0⟩ ∧ ∃ n, c.entry h = some (b, { t with id := ⟨h, n⟩ }) := by
  unfold standing
  rw [Option.map_eq_some_iff]
  constructor
  · rintro ⟨⟨b', s⟩, he, heq⟩
    cases heq
    have hid : s.id = ⟨h, s.id.serial⟩ := by rw [← (hc.fits he).handle]
    exact ⟨rfl, s.id.serial, he.trans (by rw [← hid])⟩
  · rintro ⟨hid, n, he⟩
    exact ⟨_, he, by rw [← hid]⟩

/-- Under a handle that is registered in one of two matching clients, the other
has the same stream with a serial of its own. -/
theorem Matches.entry (hm : c.Matches d h) (hc : c.Sound) (hd : d.Sound) {b : Bucket} {s : Stream}
    (he : c.entry h = some (b, s)) :
    ∃ n n', s.id = ⟨h, n⟩ ∧ d.entry h = some (b, { s with id := ⟨h, n'⟩ }) := by
  have hs : c.standing h = some (b, { s with id := ⟨h, 0⟩ }) := by
    unfold Client.standing
    rw [he]
    rfl
  rw [hm.standing, standing_some hd] at hs
  obtain ⟨-, n', hn'⟩ := hs
  exact ⟨s.id.serial, n', by rw [← (hc.fits he).handle], hn'⟩

theorem Matches.entry_none (hm : c.Matches d h) (he : c.entry h = none) : d.entry h = none := by
  rw [← standing_none, ← hm.standing, standing_none]
  exact he

theorem Matches.symm (hm : c.Matches d h) : d.Matches c h :=
  ⟨hm.explicit.symm, hm.high.symm, hm.standing.symm⟩

/-- Everything that an operation puts out is about the handle it names. -/
theorem Does.handle_of_output {op : Operation} {outs : List Output} (hd : Does c op d outs)
    (hc : c.Sound) {o : Output} (ho : o ∈ outs) : op.handle? = some o.handle := by
  cases hd with
  | absent _ _ _ | taken _ | unsent _ _ _ | ungranted _ | swept => cases ho
  | started _ _ =>
    rw [List.mem_singleton.mp ho]
    rfl
  | sent _ call hop _ he _ _ =>
    rw [List.mem_singleton.mp ho, hop]
    exact congrArg some (hc.fits he).handle.symm
  | @cancelled h b s _ he _ =>
    have hs := (hc.fits he).handle
    have hcases : o = .told s.id .cancel ∨ o = .called s.id (.details cancelDetails) ∨
        o = .called s.id (.reset .remoteReset) ∨ o = .released s.id.handle := by simpa using ho
    rcases hcases with rfl | rfl | rfl | rfl <;> exact congrArg some hs.symm
  | @answered _ h b s a _ hop _ he _ =>
    rw [hop, ← (hc.fits he).handle]
    unfold answer at ho
    simp only [List.mem_append, List.mem_map] at ho
    rcases ho with (⟨call, -, rfl⟩ | ⟨e, -, rfl⟩) | ho
    · rfl
    · rfl
    · split at ho
      · rw [List.mem_singleton.mp ho]
        rfl
      · cases ho

/-- Two streams that differ in their serials put out the same on an act. -/
theorem answer_alike (s : Stream) (h : Handle) (n n' : Nat) (a : Act) :
    List.Forall₂ Output.Alike (answer { s with id := ⟨h, n⟩ } a)
      (answer { s with id := ⟨h, n'⟩ } a) := by
  have hcalls (calls : List RequestCall) : List.Forall₂ Output.Alike
      (calls.map (.called ⟨h, n⟩)) (calls.map (.called ⟨h, n'⟩)) := by
    rw [List.forall₂_map_left_iff, List.forall₂_map_right_iff]
    exact List.forall₂_same.mpr fun call _ => .called h n n' (.same call)
  have htold (es : List Event) : List.Forall₂ Output.Alike
      (es.map (.told ⟨h, n⟩)) (es.map (.told ⟨h, n'⟩)) := by
    rw [List.forall₂_map_left_iff, List.forall₂_map_right_iff]
    exact List.forall₂_same.mpr fun e _ => .told h n n' e
  unfold answer
  refine List.rel_append (List.rel_append (hcalls _) (htold _)) ?_
  dsimp only
  split
  · exact .cons (.released h) .nil
  · exact .nil

/-- What a move makes of two clients that are the same to the handle it names. -/
structure SameStep (c d : Client) (h : Handle) (m : Move) : Prop where
  standing : (c.advance m).1.standing h = (d.advance m).1.standing h
  outputs : List.Forall₂ Output.Alike (c.advance m).2 (d.advance m).2
  gained : (c.advance m).1.outcomes.since c.outcomes = (d.advance m).1.outcomes.since d.outcomes

theorem SameStep.idle (hm : c.Matches d h) (hx : c.advance m = (c, []))
    (hy : d.advance m = (d, [])) : c.SameStep d h m := by
  refine ⟨?_, ?_, ?_⟩
  · rw [hx, hy]
    exact hm.standing
  · rw [hx, hy]
    exact .nil
  · rw [hx, hy, Outcomes.since_self, Outcomes.since_self]

theorem standing_of_entry {e : Option (Bucket × Stream)} (he : c.entry h = e) :
    c.standing h = e.map fun e => (e.1, { e.2 with id := ⟨h, 0⟩ }) := by
  rw [← he]
  rfl

section Same

variable (hc : c.Sound) (hd : d.Sound) (hm : c.Matches d h)
include hc hd hm

theorem same_started (hop : m.op = .start h) (he : c.entry h = none) : c.SameStep d h m := by
  obtain ⟨hx, hxp⟩ := advance_started hc hop he
  obtain ⟨hy, hyp⟩ := advance_started hd hop (hm.entry_none he)
  refine ⟨?_, ?_, ?_⟩
  · rw [standing_of_entry ((hxp.entry h).trans (if_pos rfl)),
      standing_of_entry ((hyp.entry h).trans (if_pos rfl))]
    simp only [Option.map_some, fresh, hm.explicit, hm.high]
  · rw [hx, hy]
    exact .cons (.opened h _ _) .nil
  · rw [hxp.outcomes, hyp.outcomes, Outcomes.since_self, Outcomes.since_self]

theorem same_sent (hop : m.op.handle? = some h) (ha : m.op.sends = true) {s : Stream}
    (he : c.entry h = some (.opened, s)) (hl : s.localClosed = false) : c.SameStep d h m := by
  obtain ⟨n, n', hid, he'⟩ := hm.entry hc hd he
  have hsend : m.op.sendsOn h = true := by simp [Operation.sendsOn, ha, hop]
  obtain ⟨call, g, hcall, hx, hxp⟩ := advance_send hc hsend he hl
  obtain ⟨call', g', hcall', hy, hyp⟩ := advance_send hd hsend he' hl
  refine ⟨?_, ?_, ?_⟩
  · rw [standing_of_entry ((hxp.entry h).trans (if_pos rfl)),
      standing_of_entry ((hyp.entry h).trans (if_pos rfl))]
    rfl
  · rw [hx, hy, hid]
    exact .cons (.called h n n' (hcall.alike hcall')) .nil
  · rw [hxp.outcomes, hyp.outcomes, Outcomes.since_self, Outcomes.since_self]

theorem same_cancelled (hop : m.op = .cancel h) {b : Bucket} {s : Stream}
    (he : c.entry h = some (b, s)) : c.SameStep d h m := by
  obtain ⟨n, n', hid, he'⟩ := hm.entry hc hd he
  obtain ⟨hx, hxp⟩ := advance_cancelled hc hop he
  obtain ⟨hy, hyp⟩ := advance_cancelled hd hop he'
  refine ⟨?_, ?_, ?_⟩
  · rw [standing_of_entry ((hxp.entry h).trans (if_pos rfl)),
      standing_of_entry ((hyp.entry h).trans (if_pos rfl))]
  · rw [hx, hy, hid]
    exact .cons (.told h n n' _) (.cons (.called h n n' (.same _)) (.cons (.called h n n' (.same _))
      (.cons (.released h) .nil)))
  · rw [hxp.outcomes, hyp.outcomes]
    simp only [Outcomes.since, Nat.sub_self, Nat.add_sub_cancel_left]

theorem same_answered (hop : m.op.handle? = some h) {a : Act} (ha : m.op.act? c.explicit = some a)
    {b : Bucket} {s : Stream} (he : c.entry h = some (b, s)) : c.SameStep d h m := by
  obtain ⟨n, n', hid, he'⟩ := hm.entry hc hd he
  obtain ⟨hx, hxp⟩ := advance_answered hc hop ha he
  obtain ⟨hy, hyp⟩ := advance_answered hd hop (hm.explicit ▸ ha) he'
  refine ⟨?_, ?_, ?_⟩
  · rw [standing_of_entry ((hxp.entry h).trans (if_pos rfl)),
      standing_of_entry ((hyp.entry h).trans (if_pos rfl))]
    unfold entryAfter
    dsimp only
    split <;> rfl
  · rw [hx, hy]
    have hs : s = { s with id := ⟨h, n⟩ } := by rw [← hid]
    rw [hs]
    exact answer_alike s h n n' a
  · rw [hxp.outcomes, hyp.outcomes]
    unfold settled
    dsimp only
    rw [Outcomes.settle_since, Outcomes.settle_since]

/-- A move does the same to two clients that are the same to the handle it names. -/
theorem same_advance (hop : m.op.handle? = some h) : c.SameStep d h m := by
  rcases kinds_of_handle hop c.explicit with hk | hk | hk | ⟨a, ha⟩ | ⟨credit, hk, hg⟩
  · cases he : c.entry h with
    | none => exact same_started hc hd hm hk he
    | some e =>
      obtain ⟨-, n', -, he'⟩ := hm.entry hc hd (b := e.1) (s := e.2) he
      exact .idle hm (advance_taken hk he) (advance_taken hk he')
  · by_cases hopen : ∃ s, c.entry h = some (.opened, s) ∧ s.localClosed = false
    · obtain ⟨s, he, hl⟩ := hopen
      exact same_sent hc hd hm hop hk he hl
    · have hl : ∀ s, c.entry h = some (.opened, s) → s.localClosed = true := fun s he =>
        Bool.eq_true_of_not_eq_false fun hf => hopen ⟨s, he, hf⟩
      have hl' : ∀ s, d.entry h = some (.opened, s) → s.localClosed = true := fun s he => by
        obtain ⟨-, n', -, he'⟩ := hm.symm.entry hd hc he
        have hclosed := hl _ he'
        exact hclosed
      exact .idle hm (advance_unsent hc hop hk hl) (advance_unsent hd hop hk hl')
  · cases he : c.entry h with
    | none =>
      have hs : m.op ≠ .start h := by simp [hk]
      exact .idle hm (advance_of_unregistered hc.disjoint hop hs he)
        (advance_of_unregistered hd.disjoint hop hs (hm.entry_none he))
    | some e => exact same_cancelled hc hd hm hk (b := e.1) (s := e.2) he
  · cases he : c.entry h with
    | none =>
      have hs : m.op ≠ .start h := by
        intro hs
        rw [hs] at ha
        cases ha
      exact .idle hm (advance_of_unregistered hc.disjoint hop hs he)
        (advance_of_unregistered hd.disjoint hop hs (hm.entry_none he))
    | some e => exact same_answered hc hd hm hop ha (b := e.1) (s := e.2) he
  · exact .idle hm (advance_ungranted hk hg) (advance_ungranted hk (hm.explicit ▸ hg))

end Same

/-- A move that names another handle, or none, changes nothing to a handle. -/
theorem matches_elsewhere (hc : c.Sound) (hm : c.Matches d h) (hop : m.op.handle? ≠ some h) :
    (c.advance m).1.Matches d h ∧ (c.advance m).2.filter (fun o => o.handle = h) = [] := by
  have hdoes := does_advance hc.disjoint m
  have hstanding : (c.advance m).1.standing h = c.standing h := standing_of_entry (hdoes.frame hop)
  refine ⟨⟨hdoes.explicit.trans hm.explicit, hdoes.highWatermark.trans hm.high,
    hstanding.trans hm.standing⟩, ?_⟩
  rw [List.filter_eq_nil_iff]
  intro o ho hh
  rw [decide_eq_true_eq] at hh
  exact hop (hh ▸ hdoes.handle_of_output hc ho)

/-- A move puts out nothing but what is about the handle it names. -/
theorem filter_outputs (hc : c.Sound) (hop : m.op.handle? = some h) :
    (c.advance m).2.filter (fun o => o.handle = h) = (c.advance m).2 := by
  rw [List.filter_eq_self]
  intro o ho
  have ho' := (does_advance hc.disjoint m).handle_of_output hc ho
  rw [hop, Option.some.injEq] at ho'
  simp [ho']

/-- Matching clients still match after a move that names the handle. -/
theorem matches_advance (hc : c.Sound) (hd : d.Sound) (hm : c.Matches d h)
    (hop : m.op.handle? = some h) : (c.advance m).1.Matches (d.advance m).1 h := by
  have hdc := does_advance hc.disjoint m
  have hdd := does_advance hd.disjoint m
  refine ⟨?_, ?_, (same_advance hc hd hm hop).standing⟩
  · rw [hdc.explicit, hdd.explicit, hm.explicit]
  · rw [hdc.highWatermark, hdd.highWatermark, hm.high]

end Step

/-! ### Runs -/

/-- Two runs that hold the same moves on a handle, other moves put in anywhere. -/
inductive SameMoves (h : Handle) : List Move → List Move → Prop
  | nil : SameMoves h [] []
  | left {m : Move} {ms ns : List Move} : m.op.handle? ≠ some h → SameMoves h ms ns →
      SameMoves h (m :: ms) ns
  | right {n : Move} {ms ns : List Move} : n.op.handle? ≠ some h → SameMoves h ms ns →
      SameMoves h ms (n :: ns)
  | both {m : Move} {ms ns : List Move} : m.op.handle? = some h → SameMoves h ms ns →
      SameMoves h (m :: ms) (m :: ns)

section Run

variable {c d : Client} {h : Handle} {ms ns : List Move}

theorem SameMoves.right_append {others : List Move} (ho : ∀ n ∈ others, n.op.handle? ≠ some h)
    (hs : SameMoves h ms ns) : SameMoves h ms (others ++ ns) := by
  induction others with
  | nil => exact hs
  | cons n others ih =>
    exact .right (ho n (by simp)) (ih fun k hk => ho k (by simp [hk]))

theorem sameMoves_of_filter (heq : ms.filter (fun m => m.op.handle? = some h) =
    ns.filter fun m => m.op.handle? = some h) : SameMoves h ms ns := by
  induction ms generalizing ns with
  | nil =>
    have hnone : ∀ n ∈ ns, n.op.handle? ≠ some h := by
      have hnil := List.filter_eq_nil_iff.mp heq.symm
      intro n hn hop
      exact hnil n hn (decide_eq_true hop)
    have hs := SameMoves.nil.right_append hnone
    rwa [List.append_nil] at hs
  | cons m ms ih =>
    by_cases hop : m.op.handle? = some h
    · rw [List.filter_cons_of_pos (by simpa using hop)] at heq
      obtain ⟨others, later, rfl, hothers, -, hlater⟩ := List.filter_eq_cons_iff.mp heq.symm
      refine SameMoves.right_append (fun n hn hk => hothers n hn (decide_eq_true hk)) ?_
      exact .both hop (ih hlater.symm)
    · rw [List.filter_cons_of_neg (by simpa using hop)] at heq
      exact .left hop (ih heq)

theorem outputsOn_cons (c : Client) (h : Handle) (m : Move) (ms : List Move) :
    c.outputsOn h (m :: ms) =
      (c.advance m).2.filter (fun o => o.handle = h) ++ (c.advance m).1.outputsOn h ms := by
  unfold outputsOn
  rw [outputs, List.flatten_cons, List.filter_append]

theorem tally_cons (c : Client) (h : Handle) (m : Move) (ms : List Move) :
    c.tally h (m :: ms) =
      (if m.op.handle? = some h then (c.advance m).1.outcomes.since c.outcomes else {}).add
        ((c.advance m).1.tally h ms) := rfl

/-- What two runs have in common to a handle. -/
structure SameRun (c d : Client) (h : Handle) (ms ns : List Move) : Prop where
  standing : (c.after ms).standing h = (d.after ns).standing h
  outputs : List.Forall₂ Output.Alike (c.outputsOn h ms) (d.outputsOn h ns)
  gained : c.tally h ms = d.tally h ns

/-- Runs from matching clients that hold the same moves on a handle. -/
theorem same_run (hs : SameMoves h ms ns) (hc : c.Sound) (hd : d.Sound) (hm : c.Matches d h) :
    c.SameRun d h ms ns := by
  induction hs generalizing c d with
  | nil => exact ⟨hm.standing, .nil, rfl⟩
  | @left m ms ns hop _ ih =>
    obtain ⟨hm', hnone⟩ := matches_elsewhere hc hm hop
    obtain ⟨hst, hout, hgain⟩ := ih (sound_advance hc m) hd hm'
    refine ⟨hst, ?_, ?_⟩
    · rw [outputsOn_cons, hnone]
      exact hout
    · rw [tally_cons c, if_neg hop, Outcomes.empty_add]
      exact hgain
  | @right n ms ns hop _ ih =>
    obtain ⟨hm', hnone⟩ := matches_elsewhere hd hm.symm hop
    obtain ⟨hst, hout, hgain⟩ := ih hc (sound_advance hd n) hm'.symm
    refine ⟨hst, ?_, ?_⟩
    · rw [outputsOn_cons d, hnone]
      exact hout
    · rw [tally_cons d, if_neg hop, Outcomes.empty_add]
      exact hgain
  | @both m ms ns hop _ ih =>
    have hstep := same_advance hc hd hm hop
    obtain ⟨hst, hout, hgain⟩ :=
      ih (sound_advance hc m) (sound_advance hd m) (matches_advance hc hd hm hop)
    refine ⟨hst, ?_, ?_⟩
    · rw [outputsOn_cons, outputsOn_cons, filter_outputs hc hop, filter_outputs hd hop]
      exact List.rel_append hstep.outputs hout
    · rw [tally_cons c, tally_cons d, if_pos hop, if_pos hop, hstep.gained, hgain]

end Run

/-! ### Totals -/

section Totals

variable {c d : Client} {h : Handle} {m : Move}

/-- The outcomes of a client only grow. -/
theorem outcomes_advance (hc : c.Sound) (m : Move) :
    (c.advance m).1.outcomes = c.outcomes + (c.advance m).1.outcomes.since c.outcomes := by
  have kept {o : Outcomes} (ho : o = c.outcomes) : o = c.outcomes + o.since c.outcomes := by
    rw [ho, Outcomes.since_self, Outcomes.empty_eq, add_zero]
  have hd := does_advance hc.disjoint m
  generalize c.advance m = r at hd ⊢
  obtain ⟨d, outs⟩ := r
  dsimp only at hd ⊢
  generalize m.op = op at hd
  cases hd with
  | absent _ _ _ | taken _ | unsent _ _ _ | ungranted _ | swept => exact kept rfl
  | started _ hp | sent _ _ _ _ _ _ hp => exact kept hp.outcomes
  | cancelled _ hp =>
    rw [hp.outcomes, ← Outcomes.add_eq]
    simp [Outcomes.add, Outcomes.since]
  | @answered _ h b s a _ _ _ _ hp =>
    have hset : d.outcomes = c.outcomes.settle (s.response.act a).disposition := hp.outcomes
    rw [hset, Outcomes.settle_since, ← Outcomes.add_eq]
    cases (s.response.act a).disposition with
    | unfinished | failed => rfl
    | completed success => cases success <;> rfl

/-- Only an operation on a handle adds to the outcomes. -/
theorem since_of_no_handle (hop : m.op.handle? = none) :
    (c.advance m).1.outcomes.since c.outcomes = 0 := by
  obtain ⟨op, network⟩ := m
  cases op with
  | sweep => exact Outcomes.since_self _
  | start _ | sendHeaders _ _ _ | sendData _ _ _ | sendTrailers _ _ | cancel _ | resume _ _
  | onHeaders _ _ _ | onData _ _ _ | onTrailers _ _ | onReset _ _ => cases hop

/-- What a run adds to the outcomes is added under the handles that it names. -/
theorem outcomes_after (hc : c.Sound) {ms : List Move} {hs : Finset Handle}
    (hms : ∀ m ∈ ms, ∀ h, m.op.handle? = some h → h ∈ hs) :
    (c.after ms).outcomes = c.outcomes + ∑ h ∈ hs, c.tally h ms := by
  induction ms generalizing c with
  | nil =>
    have hzero : ∑ h ∈ hs, c.tally h [] = 0 := Finset.sum_const_zero
    rw [hzero, add_zero]
    rfl
  | cons m ms ih =>
    have hrest := ih (sound_advance hc m) fun n hn => hms n (by simp [hn])
    have hgain : ∑ h ∈ hs, (if m.op.handle? = some h then
        (c.advance m).1.outcomes.since c.outcomes else 0) =
          (c.advance m).1.outcomes.since c.outcomes := by
      cases hop : m.op.handle? with
      | none => simp [since_of_no_handle hop]
      | some k =>
        have hk : k ∈ hs := hms m (by simp) k hop
        simp only [Option.some.injEq, Finset.sum_ite_eq, hk, if_true]
    calc (c.after (m :: ms)).outcomes
        = (c.advance m).1.outcomes + ∑ h ∈ hs, (c.advance m).1.tally h ms := hrest
      _ = c.outcomes + ((c.advance m).1.outcomes.since c.outcomes +
            ∑ h ∈ hs, (c.advance m).1.tally h ms) := by
          rw [← add_assoc, ← outcomes_advance hc m]
      _ = c.outcomes + ∑ h ∈ hs, c.tally h (m :: ms) := by
          rw [← hgain, ← Finset.sum_add_distrib]
          rfl

/-- Dictionaries with the same keys are of the same size. -/
theorem size_eq {κ ν : Type} [DecidableEq κ] {t u : Dict κ ν}
    (hk : ∀ k, (t.find? k).isSome ↔ (u.find? k).isSome) : t.size = u.size := by
  have hmem (v : Dict κ ν) (k : κ) : k ∈ v.keys ↔ (v.find? k).isSome :=
    (Dict.lookupIn_isSome k v.entries).symm
  have hperm : t.keys.Perm u.keys := by
    refine (List.perm_ext_iff_of_nodup t.nodup u.nodup).mpr fun k => ?_
    show k ∈ t.keys ↔ k ∈ u.keys
    rw [hmem, hmem]
    exact hk k
  have hlen := hperm.length_eq
  unfold Dict.keys at hlen
  rwa [List.length_map, List.length_map] at hlen

/-- The bucket that holds a handle. -/
theorem bucket_of_standing (hs : c.standing h = d.standing h) :
    (c.entry h).map Prod.fst = (d.entry h).map Prod.fst := by
  have hbucket (e : Client) : (e.standing h).map Prod.fst = (e.entry h).map Prod.fst := by
    unfold standing
    rw [Option.map_map]
    rfl
  rw [← hbucket, ← hbucket, hs]

theorem opened_iff (c : Client) (h : Handle) :
    (c.streams.opened.find? h).isSome ↔ (c.entry h).map Prod.fst = some .opened := by
  unfold entry Registry.lookup
  cases c.streams.opened.find? h with
  | some s => simp
  | none => cases c.streams.closed.find? h <;> simp

theorem closed_iff (hc : c.Sound) (h : Handle) :
    (c.streams.closed.find? h).isSome ↔ (c.entry h).map Prod.fst = some .closed := by
  have hd := hc.disjoint h
  unfold entry Registry.lookup
  cases ho : c.streams.opened.find? h with
  | some s => simp [hd (by simp [ho])]
  | none => cases c.streams.closed.find? h <;> simp

/-- Clients with the same streams have the same counts of them. -/
theorem counts_of_standing (hc : c.Sound) (hd : d.Sound)
    (hs : ∀ h, c.standing h = d.standing h) :
    c.streams.openCount = d.streams.openCount ∧ c.streams.closedCount = d.streams.closedCount := by
  refine ⟨size_eq fun h => ?_, size_eq fun h => ?_⟩
  · rw [opened_iff, opened_iff, bucket_of_standing (hs h)]
  · rw [closed_iff hc, closed_iff hd, bucket_of_standing (hs h)]

/-- Where no application answers, an output changes the live handles by giving
one back and in no other way. -/
theorem live_emits {outs : List Output} {w : Host} (hw : w.applications = {}) :
    (outs.foldl Host.emit w).live.handles =
      w.live.handles.filter fun k => .released k ∉ outs := by
  induction outs generalizing w with
  | nil => simp
  | cons o outs ih =>
    have happs : (w.emit o).applications = {} := by
      cases o with
      | told id e =>
        unfold Host.emit Host.tell
        simp only [hw, Dict.find?_empty]
      | opened _ | called _ _ | released _ => exact hw
    rw [List.foldl_cons, ih happs]
    cases o with
    | told id e =>
      have hlive : (w.emit (.told id e)).live = w.live := by
        unfold Host.emit Host.tell
        simp only [hw, Dict.find?_empty]
      simp [hlive]
    | opened _ =>
      simp [Host.emit]
    | called _ _ =>
      simp [Host.emit, Host.enqueueParts]
    | released h =>
      simp only [Host.emit, LiveSet.erase, List.filter_filter]
      refine List.filter_congr fun k _ => ?_
      by_cases hk : k = h <;> simp [hk]

theorem liveAfter_eq {live : LiveSet} {ms ns : List Move}
    (hout : ∀ h, List.Forall₂ Output.Alike (c.outputsOn h ms) (d.outputsOn h ns)) :
    c.liveAfter live ms = d.liveAfter live ns := by
  have hreleased (e : Client) (k : Handle) (ls : List Move) :
      .released k ∈ (e.outputs ls).flatten ↔ .released k ∈ e.outputsOn k ls := by
    unfold outputsOn
    simp [List.mem_filter, Output.handle]
  have hhandles : (c.liveAfter live ms).handles = (d.liveAfter live ns).handles := by
    unfold liveAfter
    rw [live_emits rfl, live_emits rfl]
    refine List.filter_congr fun k _ => ?_
    have hiff : .released k ∈ (c.outputs ms).flatten ↔ .released k ∈ (d.outputs ns).flatten := by
      rw [hreleased c k ms, hreleased d k ns, released_of_alike (hout k) k]
    exact decide_eq_decide.mpr (not_congr hiff)
  generalize c.liveAfter live ms = x at hhandles
  generalize d.liveAfter live ns = y at hhandles
  obtain ⟨xs, hx⟩ := x
  obtain ⟨ys, hy⟩ := y
  obtain rfl : xs = ys := hhandles
  rfl

end Totals

/-! ### Two runs -/

/-- What a handle sees alike in two runs: what is put out for it, and with it the
events told and the calls made; what stands under it in the end; and what it adds
to the outcomes. -/
structure AgreesOn (c d : Client) (ms ns : List Move) (h : Handle) : Prop where
  outputs : List.Forall₂ Output.Alike (c.outputsOn h ms) (d.outputsOn h ns)
  log : (c.outputsOn h ms).filterMap Output.event? = (d.outputsOn h ns).filterMap Output.event?
  calls : List.Forall₂ RequestCall.Alike ((c.outputsOn h ms).filterMap Output.call?)
    ((d.outputsOn h ns).filterMap Output.call?)
  standing : (c.after ms).standing h = (d.after ns).standing h
  outcome : c.tally h ms = d.tally h ns

theorem SameRun.agreesOn {c d : Client} {h : Handle} {ms ns : List Move}
    (hs : c.SameRun d h ms ns) : c.AgreesOn d ms ns h :=
  ⟨hs.outputs, events_of_alike hs.outputs, calls_of_alike hs.outputs, hs.standing, hs.gained⟩

/-- Runs on one network that hold the same operations on a handle hold the same
moves on it. -/
theorem sameMoves_of_onHandle {h : Handle} {ops ops' : List Operation} (network : Network)
    (heq : Operation.onHandle h ops = Operation.onHandle h ops') :
    SameMoves h (ops.map (Move.mk · network)) (ops'.map (Move.mk · network)) := by
  have hfilter (xs : List Operation) :
      (xs.map (Move.mk · network)).filter (fun m => m.op.handle? = some h) =
        (Operation.onHandle h xs).map (Move.mk · network) := by
    unfold Operation.onHandle
    rw [List.filter_map]
    rfl
  exact sameMoves_of_filter (by rw [hfilter, hfilter, heq])

/-- Two runs of new clients under one configuration and one network, with draws
and interleavings of their own. A handle that both name in the same operations
sees the same in both; so it does when the operations on all other handles are
left out. Runs that agree so on every handle end with the same outcomes, the same
numbers of open and of closed streams, and the same live handles. -/
theorem streams_do_not_interfere (config : Config) (network : Network)
    (draws draws' : Draws) (ops ops' : List Operation) :
    let c := ofConfig config draws
    let d := ofConfig config draws'
    let ms := ops.map (Move.mk · network)
    let ns := ops'.map (Move.mk · network)
    (∀ h, Operation.onHandle h ops = Operation.onHandle h ops' → c.AgreesOn d ms ns h) ∧
    (∀ h, c.AgreesOn d ms ((Operation.onHandle h ops).map (Move.mk · network)) h) ∧
    ((∀ h, Operation.onHandle h ops = Operation.onHandle h ops') →
      (c.after ms).outcomes = (d.after ns).outcomes ∧
      (c.after ms).streams.openCount = (d.after ns).streams.openCount ∧
      (c.after ms).streams.closedCount = (d.after ns).streams.closedCount ∧
      ∀ live, c.liveAfter live ms = d.liveAfter live ns) := by
  intro c d ms ns
  have hc : c.Sound := sound_ofConfig config draws
  have hd : d.Sound := sound_ofConfig config draws'
  have hm (h : Handle) : c.Matches d h := ⟨rfl, rfl, rfl⟩
  have agree (xs : List Operation) (h : Handle)
      (heq : Operation.onHandle h ops = Operation.onHandle h xs) :
      c.AgreesOn d ms (xs.map (Move.mk · network)) h :=
    (same_run (sameMoves_of_onHandle network heq) hc hd (hm h)).agreesOn
  refine ⟨fun h heq => agree ops' h heq, fun h => agree _ h ?_, fun hall => ?_⟩
  · unfold Operation.onHandle
    rw [List.filter_filter]
    simp only [Bool.and_self]
  · have hagree (h : Handle) : c.AgreesOn d ms ns h := agree ops' h (hall h)
    have hstanding (h : Handle) : (c.after ms).standing h = (d.after ns).standing h :=
      (hagree h).standing
    obtain ⟨hopen, hclosed⟩ := counts_of_standing (sound_after hc ms) (sound_after hd ns) hstanding
    refine ⟨?_, hopen, hclosed, fun live => liveAfter_eq fun h => (hagree h).outputs⟩
    -- The handles that either run names are finitely many, and the outcomes are
    -- the sum of what each of them adds.
    let named : Finset Handle := ((ms ++ ns).filterMap fun m => m.op.handle?).toFinset
    have hnamed {m : Move} (hmem : m ∈ ms ++ ns) (h : Handle) (hop : m.op.handle? = some h) :
        h ∈ named := List.mem_toFinset.mpr (List.mem_filterMap.mpr ⟨m, hmem, hop⟩)
    calc (c.after ms).outcomes
        = c.outcomes + ∑ h ∈ named, c.tally h ms :=
          outcomes_after hc fun m hmem => hnamed (List.mem_append_left _ hmem)
      _ = d.outcomes + ∑ h ∈ named, d.tally h ns :=
          congrArg (d.outcomes + ·) (Finset.sum_congr rfl fun h _ => (hagree h).outcome)
      _ = (d.after ns).outcomes :=
          (outcomes_after hd fun m hmem => hnamed (List.mem_append_right _ hmem)).symm

/-- Two streams whose operations are shuffled, one of them cancelled, with draws
that pick the two partitions the other way round. -/
theorem streams_do_not_interfere_shuffled :
    let c := ofConfig {} {}
    let d := ofConfig {} { numbers := fun _ => 1 }
    let ops := [Operation.start ⟨1⟩, .start ⟨2⟩, .sendHeaders ⟨1⟩ {} true, .sendData ⟨2⟩ [7] true,
      .onData ⟨1⟩ [5] true, .cancel ⟨2⟩]
    let ops' := [Operation.start ⟨2⟩, .sendData ⟨2⟩ [7] true, .cancel ⟨2⟩, .start ⟨1⟩,
      .sendHeaders ⟨1⟩ {} true, .onData ⟨1⟩ [5] true]
    let ms := ops.map (Move.mk · .generic)
    let ns := ops'.map (Move.mk · .generic)
    (∀ h, Operation.onHandle h ops = Operation.onHandle h ops') ∧
      (∀ h, c.AgreesOn d ms ns h) ∧
      (c.after ms).outcomes = (d.after ns).outcomes ∧
      (d.after ns).outcomes = { failure := 1, cancel := 1 } := by
  intro c d ops ops' ms ns
  have hsame (h : Handle) : Operation.onHandle h ops = Operation.onHandle h ops' := by
    by_cases h1 : h = ⟨1⟩
    · rw [h1]
      decide
    · by_cases h2 : h = ⟨2⟩
      · rw [h2]
        decide
      · simp [ops, ops', Operation.onHandle, Operation.handle?, Ne.symm h1, Ne.symm h2]
  obtain ⟨hagree, -, htotals⟩ := streams_do_not_interfere {} .generic {} { numbers := fun _ => 1 } ops ops'
  exact ⟨hsame, fun h => hagree h (hsame h), (htotals hsame).1, by decide⟩

end Client
end HttpExchange
