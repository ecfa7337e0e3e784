/-
# What a reply tells

Whatever happens to the response side of a stream, in whatever order, its reply
tells ongoing events first and then, exactly if its disposition is final, the
ending that the disposition names (`Response.tells_act`).

Key definitions: `Event.isOngoing`, `Event.isEnd`, `Ending`, `Response.Tells`.
Key theorem: `Response.tells_act`.
-/
import HttpExchange.Proofs.Response

namespace HttpExchange

namespace Event

/-- The event leaves the stream going on. -/
def isOngoing : Event → Bool
  | headers _ last => !last
  | data _ last => !last
  | _ => false

/-- The event carries the end of the response. -/
def isEnd : Event → Bool
  | headers _ last => last
  | data _ last => last
  | trailers _ => true
  | _ => false

end Event

/-- What the log of a stream can end in. -/
inductive Ending : List Event → Prop
  | completed {e : Event} : e.isEnd → Ending [e, .complete]
  | failed (e : StreamError) : Ending [.error e]
  | cancelled : Ending [.cancel]

namespace Response

/-- What a reply tells, by its disposition. -/
inductive Tells : List Event → Disposition → Prop
  | unfinished {l : List Event} : (∀ e ∈ l, e.isOngoing) → Tells l .unfinished
  | completed {l : List Event} {e : Event} (success : Bool) :
      (∀ e ∈ l, e.isOngoing) → e.isEnd → Tells (l ++ [e, .complete]) (.completed success)
  | failed {l : List Event} (e : StreamError) :
      (∀ e ∈ l, e.isOngoing) → Tells (l ++ [.error e]) .failed

theorem Tells.nothing : Tells [] .unfinished := .unfinished (by simp)

/-- Ongoing events may come before anything. -/
theorem Tells.after {l earlier : List Event} {d : Disposition} (h : Tells l d)
    (he : ∀ e ∈ earlier, e.isOngoing) : Tells (earlier ++ l) d := by
  have both : ∀ {l : List Event}, (∀ e ∈ l, e.isOngoing) → ∀ e ∈ earlier ++ l, e.isOngoing :=
    fun hl e hm => (List.mem_append.mp hm).elim (he e) (hl e)
  cases h with
  | unfinished hl => exact .unfinished (both hl)
  | completed success hl hend =>
    rw [← List.append_assoc]
    exact .completed success (both hl) hend
  | failed e hl =>
    rw [← List.append_assoc]
    exact .failed e (both hl)

theorem Tells.unfinished_iff {l : List Event} {d : Disposition} (h : Tells l d) :
    d.isFinal = false ↔ ∀ e ∈ l, e.isOngoing := by
  cases h with
  | unfinished hl => simpa [Disposition.isFinal] using hl
  | completed success hl hend =>
    simp only [Disposition.isFinal, Bool.true_eq_false, false_iff]
    exact fun h => absurd (h .complete (by simp)) (by simp [Event.isOngoing])
  | failed e hl =>
    simp only [Disposition.isFinal, Bool.true_eq_false, false_iff]
    exact fun h => absurd (h (.error e) (by simp)) (by simp [Event.isOngoing])

/-- A final reply tells ongoing events and then an ending. -/
theorem Tells.ending {l : List Event} {d : Disposition} (h : Tells l d) (hd : d.isFinal) :
    ∃ first last, l = first ++ last ∧ (∀ e ∈ first, e.isOngoing) ∧ Ending last := by
  cases h with
  | unfinished _ => cases hd
  | completed success hl hend => exact ⟨_, _, rfl, hl, .completed hend⟩
  | failed e hl => exact ⟨_, _, rfl, hl, .failed e⟩

/-- What a reply can tell: ongoing events, an end, that the stream is complete,
and an error if it has failed. -/
theorem Tells.mem {l : List Event} {d : Disposition} (h : Tells l d) {x : Event} (hx : x ∈ l) :
    x.isOngoing = true ∨ x.isEnd = true ∨ x = .complete ∨ ((∃ e, x = .error e) ∧ d = .failed) := by
  cases h with
  | unfinished hl => exact .inl (hl x hx)
  | completed success hl hend =>
    rcases List.mem_append.mp hx with hx | hx
    · exact .inl (hl x hx)
    · simp only [List.mem_cons, List.not_mem_nil, or_false] at hx
      rcases hx with rfl | rfl
      · exact .inr (.inl hend)
      · exact .inr (.inr (.inl rfl))
  | failed e hl =>
    rcases List.mem_append.mp hx with hx | hx
    · exact .inl (hl x hx)
    · exact .inr (.inr (.inr ⟨⟨e, List.mem_singleton.mp hx⟩, rfl⟩))

/-- Only a stream that has failed is told an error. -/
theorem Tells.failed_of_error {l : List Event} {d : Disposition} (h : Tells l d) {e : StreamError}
    (he : .error e ∈ l) : d = .failed := by
  have hmem := h.mem he
  simpa [Event.isOngoing, Event.isEnd] using hmem

theorem tells_deliverError (s : Response) :
    Tells s.deliverError.events s.deliverError.disposition :=
  .failed (l := []) _ (by simp)

theorem tells_fail (s : Response) : Tells s.fail.events s.fail.disposition := by
  unfold fail
  split
  · exact .nothing
  · exact s.tells_deliverError

theorem tells_forwardData (s : Response) (bytes : Bytes) (last : Bool) :
    Tells (s.forwardData bytes last).events (s.forwardData bytes last).disposition := by
  cases last with
  | true => exact .completed (l := []) (e := .data bytes true) s.success (by simp) rfl
  | false => exact .unfinished (by simp [forwardData, Event.isOngoing])

theorem tells_forwardTrailers (s : Response) (block : Headers) :
    Tells (s.forwardTrailers block).events (s.forwardTrailers block).disposition :=
  .completed (l := []) (e := .trailers block) s.success (by simp) rfl

theorem tells_hold (s : Response) (bytes : Bytes) :
    Tells (s.hold bytes).events (s.hold bytes).disposition := .nothing

theorem tells_onHeaders (s : Response) (block : Headers) (last : Bool) :
    Tells (s.onHeaders block last).events (s.onHeaders block last).disposition := by
  have h := s.onHeaders_spec block last
  generalize s.onHeaders block last = r at h ⊢
  cases h with
  | failing _ _ => exact tells_fail _
  | marked _ _ => exact .nothing
  | completing _ _ =>
    exact .completed (l := []) (e := .headers block true) block.succeeds (by simp) rfl
  | passed _ _ => exact .unfinished (by simp [Event.isOngoing])

theorem tells_onData (s : Response) (bytes : Bytes) (last : Bool) :
    Tells (s.onData bytes last).events (s.onData bytes last).disposition := by
  have h := s.onData_spec bytes last
  generalize s.onData bytes last = r at h ⊢
  cases h with
  | failing _ _ => exact tells_fail _
  | suppressed _ _ => exact .nothing
  | empty _ _ _ => exact .nothing
  | passed _ _ _ => exact tells_forwardData ..
  | split _ _ _ _ _ => exact (tells_hold _ _).after (by simp [Event.isOngoing])
  | held _ _ _ _ => exact tells_hold ..

theorem tells_onTrailers (s : Response) (block : Headers) :
    Tells (s.onTrailers block).events (s.onTrailers block).disposition := by
  have h := s.onTrailers_spec block
  generalize s.onTrailers block = r at h ⊢
  cases h with
  | failing _ => exact tells_fail _
  | parked _ _ _ => exact .nothing
  | passed _ _ => exact tells_forwardTrailers ..

theorem tells_onReset (s : Response) : Tells s.onReset.events s.onReset.disposition := by
  have h := s.onReset_spec
  generalize s.onReset = r at h ⊢
  cases h with
  | ignored _ => exact .nothing
  | failing _ => exact tells_fail _

theorem tells_forwardRest (s : Response) :
    Tells s.forwardRest.events s.forwardRest.disposition := by
  unfold forwardRest
  split
  · exact .nothing
  · cases s.trailers with
    | some block => exact tells_forwardTrailers ..
    | none =>
      simp only
      split
      · exact s.tells_deliverError
      · exact .nothing

theorem tells_resume (s : Response) (credit : Nat) :
    Tells (s.resume credit).events (s.resume credit).disposition := by
  obtain ⟨b, -, hr⟩ := s.resume_eq credit
  rw [hr]
  split
  · split
    · exact tells_forwardData ..
    · exact (tells_forwardRest _).after (by simp [Event.isOngoing])
  · exact tells_forwardRest _

/-- Whatever happens, a reply tells ongoing events and then the ending that its
disposition names. -/
theorem tells_act (s : Response) (a : Act) : Tells (s.act a).events (s.act a).disposition := by
  match a with
  | .arrive (.headers block last) => exact s.tells_onHeaders block last
  | .arrive (.data bytes last) => exact s.tells_onData bytes last
  | .arrive (.trailers block) => exact s.tells_onTrailers block
  | .arrive (.reset _) => exact s.tells_onReset
  | .grant credit => exact s.tells_resume credit

end Response
end HttpExchange
