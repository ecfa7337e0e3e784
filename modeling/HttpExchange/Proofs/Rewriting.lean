/-
# Request headers on their way out

What the pipeline gets of a block of request headers is the fields that the
application wrote, in their order and but for three internal names, then the
cluster, then the forwarded protocol (`Headers.entries_routed`). So nothing the
application writes under an internal name is passed on, wherever it stands and
however it is spelled; the hint for a protocol is read before it goes.

The partition is picked by a draw. A block that is sent takes one,
and nothing else does, so the draws taken in a run are counted by the blocks that
request objects were called with (`Client.draws_after`).

Key definitions: `Headers.written`, `Draws.skip`, `Output.isBlock`.
Key theorems: `Headers.entries_routed`, `Client.draws_advance`,
`Client.draws_after`, `Client.headers_are_rewritten`.
-/
import Mathlib.Logic.Function.Iterate
import HttpExchange.Proofs.Moves

namespace HttpExchange

namespace Headers

/-- The names that an application has no say in. -/
def internalNames : List String :=
  ["x-envoy-mobile-upstream-protocol", "x-envoy-mobile-cluster", "x-forwarded-proto"]

/-- The fields of a block that are passed on as they were written. -/
def written (b : Headers) : List (String × String) :=
  b.entries.filter fun e => internalNames.all fun n => !Text.alike e.1 n

/-- A field of another name stays where one name is taken out. -/
theorem filter_singleton {n k : String} (hk : Text.alike k n = false) (v : String) :
    [(k, v)].filter (fun e => !named n e) = [(k, v)] := by
  rw [List.filter_cons_of_pos (by simp [named, hk]), List.filter_nil]

theorem entries_routed (b : Headers) (network : Network) (alternate : Bool) :
    (b.routed network alternate).entries =
      b.written ++ [(clusterName, clusterFor b.scheme? b.protocolHint network alternate),
        (forwardedName, "https")] := by
  have hcluster : Text.lower clusterName = clusterName := by decide
  have hforwarded : Text.lower forwardedName = forwardedName := by decide
  have hapart : Text.alike clusterName forwardedName = false := by decide
  have hwritten : ((b.entries.filter fun e => !named protocolName e).filter
      fun e => !named clusterName e).filter (fun e => !named forwardedName e) = b.written := by
    rw [List.filter_filter, List.filter_filter]
    apply List.filter_congr
    intro e _
    simp [internalNames, named, protocolName, clusterName, forwardedName, Bool.and_comm,
      Bool.and_left_comm]
  unfold routed
  rw [entries_set, entries_remove, entries_set, entries_remove, entries_remove, hcluster, hforwarded,
    List.filter_append, hwritten, filter_singleton hapart, List.append_assoc]
  rfl

end Headers

/-- What is left to draw after one draw. -/
def Draws.skip (g : Draws) : Draws := g.next.2

/-- A request object is called with a block of request headers. -/
def Output.isBlock : Output → Bool
  | called _ (.headers _ _) => true
  | _ => false

namespace Client

open Registry (Bucket)

theorem Puts.draws {c d : Client} {h : Handle} {e : Option (Bucket × Stream)}
    (hd : Puts c h e d) : d.draws = c.draws := by rw [← hd.rest]

variable {c : Client} {m : Move}

/-- A block for an open stream whose request goes on is sent, and takes a draw. -/
theorem advance_sendHeaders {h : Handle} {s : Stream} (he : c.entry h = some (.opened, s))
    (hl : s.localClosed = false) (block : Headers) (last : Bool) (network : Network) :
    let r := c.advance ⟨.sendHeaders h block last, network⟩
    r.2 = [.called s.id (.headers (block.routed network c.draw) last)] ∧
      r.1.draws = c.draws.skip := by
  have hf : c.streams.find? h .openOnly = some s := (find?_openOnly c h s).mpr he
  have hadv : c.advance ⟨.sendHeaders h block last, network⟩ =
      c.sendHeaders network h block last := rfl
  have hsend : c.sendHeaders network h block last =
      ({ c with draws := c.draws.skip } : Client).send h last
        (.headers (block.routed network c.draw) last) := by
    unfold sendHeaders
    rw [hf]
    dsimp only
    rw [if_neg (by simp [hl])]
    rfl
  have hopen : ({ c with draws := c.draws.skip } : Client).streams.find? h .openOnly =
      some s := hf
  rw [hadv, hsend]
  unfold send
  rw [hopen]
  dsimp only
  rw [if_neg (by simp [hl])]
  exact ⟨rfl, rfl⟩

/-- A part of a request other than headers takes no draw. -/
theorem draws_send (c : Client) (h : Handle) (last : Bool) {call : RequestCall}
    (hcall : ∀ id, (Output.called id call).isBlock = false) :
    (c.send h last call).1.draws = c.draws ∧
      (c.send h last call).2.countP Output.isBlock = 0 := by
  unfold send
  split
  · exact ⟨rfl, rfl⟩
  · split
    · exact ⟨rfl, rfl⟩
    · refine ⟨rfl, ?_⟩
      rw [List.countP_singleton, hcall]
      rfl

theorem countP_answer (s : Stream) (a : Act) : (answer s a).countP Output.isBlock = 0 := by
  have hcalls : ∀ call ∈ a.calls, (Output.called s.id call).isBlock = false := by
    intro call hcall
    match a with
    | .arrive (.reset reason) =>
      obtain rfl : call = .reset reason := List.mem_singleton.mp hcall
      rfl
    | .arrive (.headers _ _) | .arrive (.data _ _) | .arrive (.trailers _) | .grant _ => cases hcall
  rw [List.countP_eq_zero]
  intro o ho
  unfold answer at ho
  simp only [List.mem_append, List.mem_map] at ho
  rcases ho with (⟨call, hcall, rfl⟩ | ⟨e, -, rfl⟩) | ho
  · simp [hcalls call hcall]
  · simp [Output.isBlock]
  · split at ho
    · obtain rfl := List.mem_singleton.mp ho
      simp [Output.isBlock]
    · cases ho

/-- What is no part of a request takes no draw. -/
theorem draws_of_other (hc : c.Sound) (hm : m.op.sends = false) :
    (c.advance m).1.draws = c.draws ∧ (c.advance m).2.countP Output.isBlock = 0 := by
  have hd := does_advance hc.disjoint m
  generalize c.advance m = r at hd ⊢
  obtain ⟨d, outs⟩ := r
  dsimp only at hd ⊢
  generalize m.op = op at hd hm
  cases hd with
  | absent _ _ _ | taken _ | unsent _ _ _ | ungranted _ | swept => exact ⟨rfl, rfl⟩
  | started _ hp => exact ⟨hp.draws, rfl⟩
  | sent _ _ _ ha _ _ _ =>
    rw [hm] at ha
    cases ha
  | cancelled _ hp => exact ⟨hp.draws, rfl⟩
  | answered _ _ _ hp => exact ⟨hp.draws, countP_answer _ _⟩

/-- A move takes as many draws as it calls request objects with headers. -/
theorem draws_advance (hc : c.Sound) (m : Move) :
    (c.advance m).1.draws =
      Draws.skip^[(c.advance m).2.countP Output.isBlock] c.draws := by
  have quiet {r : Client × List Output}
      (hr : r.1.draws = c.draws ∧ r.2.countP Output.isBlock = 0) :
      r.1.draws = Draws.skip^[r.2.countP Output.isBlock] c.draws := by
    rw [hr.1, hr.2]
    rfl
  obtain ⟨op, network⟩ := m
  cases op with
  | sendHeaders h block last =>
    by_cases hopen : ∃ s, c.entry h = some (.opened, s) ∧ s.localClosed = false
    · obtain ⟨s, he, hl⟩ := hopen
      obtain ⟨hout, hgen⟩ := advance_sendHeaders he hl block last network
      rw [hgen, hout]
      rfl
    · have hdrop : c.advance ⟨.sendHeaders h block last, network⟩ = (c, []) := by
        apply advance_unsent hc rfl rfl
        intro s he
        by_contra hl
        exact hopen ⟨s, he, by simpa using hl⟩
      apply quiet
      rw [hdrop]
      exact ⟨rfl, rfl⟩
  | sendData h bytes last => exact quiet (c.draws_send h last fun _ => rfl)
  | sendTrailers h block => exact quiet (c.draws_send h true fun _ => rfl)
  | start _ | cancel _ | resume _ _ | onHeaders _ _ _ | onData _ _ _ | onTrailers _ _
  | onReset _ _ | sweep => exact quiet (draws_of_other hc rfl)

/-- A run takes as many draws as it calls request objects with headers. -/
theorem draws_after (hc : c.Sound) (ms : List Move) :
    (c.after ms).draws =
      Draws.skip^[(c.outputs ms).flatten.countP Output.isBlock] c.draws := by
  induction ms generalizing c with
  | nil => rfl
  | cons m ms ih =>
    have houts : c.outputs (m :: ms) = (c.advance m).2 :: (c.advance m).1.outputs ms := rfl
    calc ((c.advance m).1.after ms).draws
        = Draws.skip^[((c.advance m).1.outputs ms).flatten.countP Output.isBlock]
            (Draws.skip^[(c.advance m).2.countP Output.isBlock] c.draws) := by
          rw [ih (sound_advance hc m), draws_advance hc m]
      _ = Draws.skip^[(c.outputs (m :: ms)).flatten.countP Output.isBlock] c.draws := by
          rw [← Function.iterate_add_apply, houts, List.flatten_cons, List.countP_append,
            Nat.add_comm]

/-- At any moment of a run a block of request headers is sent or dropped. It is
sent if its stream is open and its request goes on. The request object gets the
fields under other than internal names as they were written, then the cluster for
the first scheme, the first hint for a protocol, the preferred network and the
lowest bit of the next draw, then the forwarded protocol. One draw is taken for
each block that is sent, and none for one that is dropped or for anything else. -/
theorem headers_are_rewritten (config : Config) (draws : Draws) (ms : List Move)
    (h : Handle) (block : Headers) (last : Bool) (network : Network) :
    let start := ofConfig config draws
    let c := start.after ms
    let r := c.draws.next.1
    let sent : Headers := ⟨block.written ++
      [("x-envoy-mobile-cluster", clusterFor (block.get? ":scheme")
        ((block.get? "x-envoy-mobile-upstream-protocol").bind Protocol.ofText?) network
        (r % 2 == 1)), ("x-forwarded-proto", "https")]⟩
    let step := c.advance ⟨.sendHeaders h block last, network⟩
    c.draws = (fun g => g.next.2)^[(start.outputs ms).flatten.countP Output.isBlock] draws ∧
    ((∃ s, c.entry h = some (.opened, s) ∧ s.localClosed = false ∧
        step.2 = [.called s.id (.headers sent last)] ∧ step.1.draws = c.draws.next.2) ∨
      (∀ s, c.entry h = some (.opened, s) → s.localClosed = true) ∧ step = (c, [])) := by
  intro start c r sent step
  have hstart : start.Sound := sound_ofConfig config draws
  have hsent : block.routed network c.draw = sent :=
    congrArg Headers.mk (block.entries_routed network c.draw)
  refine ⟨draws_after hstart ms, ?_⟩
  by_cases hopen : ∃ s, c.entry h = some (.opened, s) ∧ s.localClosed = false
  · obtain ⟨s, he, hl⟩ := hopen
    obtain ⟨hout, hgen⟩ := advance_sendHeaders he hl block last network
    rw [hsent] at hout
    exact .inl ⟨s, he, hl, hout, hgen⟩
  · have hended : ∀ s, c.entry h = some (.opened, s) → s.localClosed = true := by
      intro s he
      by_contra hl
      exact hopen ⟨s, he, by simpa using hl⟩
    exact .inr ⟨hended, advance_unsent (sound_after hstart ms) rfl rfl hended⟩

end Client
end HttpExchange
