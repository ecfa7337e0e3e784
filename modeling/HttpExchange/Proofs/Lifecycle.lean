/-
# Where a stream is kept

A stream that was started is at any moment in one of four places: the open
bucket, the closed bucket, the list of retired streams, or nowhere any more. It
goes from one to a later one only, and the last step is a sweep's alone
(`Client.Goes`). Each place says how far the stream has come: the remote side is
open in the open bucket and nowhere else, a stream in the closed bucket owes its
ending, and a retired one has told it.

Key definitions: `Place`, `Client.At`, `Client.Filed`, `Client.Shelved`,
`Client.Goes`.
Key theorems: `Response.not_owing_act`, `Client.goes_advance`,
`Client.stage_le_after`, `Client.streams_move_forward`.
-/
import Mathlib.Data.List.Induction
import Mathlib.Logic.ExistsUnique
import HttpExchange.Proofs.Draining
import HttpExchange.Proofs.Incarnation

namespace HttpExchange

/-- Where a stream that was started can be. -/
inductive Place
  | opened
  | closed
  | retired
  | destroyed
  deriving DecidableEq, Repr

/-- The order in which a stream goes through its places. -/
def Place.stage : Place → Nat
  | opened => 0
  | closed => 1
  | retired => 2
  | destroyed => 3

namespace Response

/-! ### What leaves a stream owing nothing -/

theorem not_owing_onHeaders {s : Response} (ho : ¬ s.Owing) (block : Headers) :
    (s.onHeaders block false).disposition.isFinal = false ∧
      ¬ (s.onHeaders block false).state.Owing := by
  have h := s.onHeaders_spec block false
  generalize s.onHeaders block false = r at h ⊢
  cases h with
  | failing _ hl | completing _ hl => cases hl
  | marked _ _ | passed _ _ => exact ⟨rfl, ho⟩

theorem not_owing_onData {s : Response} (ho : ¬ s.Owing) (bytes : Bytes) :
    (s.onData bytes false).disposition.isFinal = false ∧
      ¬ (s.onData bytes false).state.Owing := by
  have h := s.onData_spec bytes false
  generalize s.onData bytes false = r at h ⊢
  cases h with
  | failing _ hl => cases hl
  | suppressed _ _ | empty _ _ _ | passed _ _ _ | split _ _ _ _ _ | held _ _ _ _ =>
    exact ⟨rfl, ho⟩

theorem not_owing_resume {s : Response} (hb : s.Balanced) (ho : ¬ s.Owing) (credit : Nat) :
    (s.resume credit).disposition.isFinal = false ∧ ¬ (s.resume credit).state.Owing := by
  have h := onResume_spec hb.unforwarded credit
  generalize s.resume credit = r at h ⊢
  cases h with
  | partly _ _ _ | drained _ _ _ _ _ _ => exact ⟨rfl, ho⟩
  | finished _ hp _ =>
    simp only [endPending, Bool.and_eq_true] at hp
    exact absurd (.inl hp.1.1) ho
  | trailers _ ht _ =>
    have he : s.endReceived = true := hb.parked (by simp [ht])
    exact absurd (.inl he) ho
  | failed _ _ _ hd _ => exact absurd (.inr hd) ho

/-- An act that leaves the remote side open neither ends a stream that owes
nothing nor makes it owe its ending. -/
theorem not_owing_act {s : Response} (hb : s.Balanced) (ho : ¬ s.Owing) {a : Act}
    (ha : a.closes = false) :
    (s.act a).disposition.isFinal = false ∧ ¬ (s.act a).state.Owing := by
  match a with
  | .arrive (.headers block last) =>
    obtain rfl : last = false := ha
    exact not_owing_onHeaders ho block
  | .arrive (.data bytes last) =>
    obtain rfl : last = false := ha
    exact not_owing_onData ho bytes
  | .arrive (.trailers _) | .arrive (.reset _) => cases ha
  | .grant credit => exact not_owing_resume hb ho credit

end Response

/-- The place that a bucket is. -/
def Registry.Bucket.place : Registry.Bucket → Place
  | opened => .opened
  | closed => .closed

namespace Client

open Registry (Bucket)

/-! ### The buckets -/

/-- How far each entry has come is what its bucket says. -/
def Filed (c : Client) : Prop :=
  ∀ h b s, c.entry h = some (b, s) →
    (s.remoteClosed = true ↔ b = .closed) ∧ (s.response.Owing ↔ b = .closed)

theorem Filed.puts {c c' d : Client} (hf : c.Filed) {h : Handle} {e : Option (Bucket × Stream)}
    (hd : Puts c' h e d) (hs : c'.streams = c.streams)
    (he : ∀ {b s}, e = some (b, s) →
      (s.remoteClosed = true ↔ b = .closed) ∧ (s.response.Owing ↔ b = .closed)) : d.Filed := by
  intro k b s hk
  rw [hd.entry] at hk
  split at hk
  · exact he hk
  · unfold entry at hk
    rw [hs] at hk
    exact hf k b s hk

theorem filed_advance {c : Client} (hc : c.Sound) (hf : c.Filed) (m : Move) :
    (c.advance m).1.Filed := by
  have hd := does_advance hc.disjoint m
  generalize c.advance m = r at hd ⊢
  obtain ⟨d, outs⟩ := r
  dsimp only at hd ⊢
  generalize m.op = op at hd
  cases hd with
  | absent _ _ _ | taken _ | unsent _ _ _ | ungranted _ | swept => exact hf
  | started _ hp =>
    refine hf.puts hp rfl fun he => ?_
    cases he
    simp [fresh, Response.Owing]
  | sent _ _ _ _ hr _ hp =>
    refine hf.puts hp rfl fun he => ?_
    cases he
    exact (hf _ _ _ hr :)
  | cancelled _ hp => exact hf.puts hp rfl fun he => by cases he
  | @answered _ h b s a _ _ _ hr hp =>
    refine hf.puts hp rfl fun he => ?_
    obtain ⟨hflag, hdebt⟩ := hf h b s hr
    have hb := (hc.fits hr).balanced
    unfold entryAfter at he
    split at he
    · cases he
    · rename_i hun
      cases he
      have hfin : (s.response.act a).disposition.isFinal = false := by simpa using hun
      cases ha : a.closes with
      | true =>
        have ho := Response.owing_act hb (.inr ha) hfin
        simp [ho]
      | false =>
        cases b with
        | closed =>
          have ho := Response.owing_act hb (.inl (hdebt.mpr rfl)) hfin
          simpa [ho] using hflag
        | opened =>
          have ho := (Response.not_owing_act hb (mt hdebt.mp (by simp)) ha).2
          simpa [ho] using hflag

/-! ### The retired streams -/

/-- What an operation can do to where streams are kept. -/
inductive Shifts (c : Client) (op : Operation) (d : Client) : Prop
  /-- No stream leaves the registry, and none is opened again. -/
  | keeps : d.retired = c.retired →
      (∀ {k b s}, c.entry k = some (b, s) →
        ∃ b' t, d.entry k = some (b', t) ∧ t.id = s.id ∧ (b = .closed → b' = .closed)) →
      Shifts c op d
  | retires {h : Handle} {b : Bucket} {s t : Stream} : c.entry h = some (b, s) →
      d.entry h = none → (∀ {k}, k ≠ h → d.entry k = c.entry k) → t.id = s.id →
      t.localClosed = true ∧ t.remoteClosed = true → d.retired = c.retired ++ [t] →
      Shifts c op d
  | sweeps : op = .sweep → d.retired = [] → (∀ {k}, d.entry k = c.entry k) → Shifts c op d

/-- A new entry for the same stream, or for one where none was. -/
theorem Shifts.of_puts {c c' d : Client} {op : Operation} {h : Handle} {b' : Bucket} {t : Stream}
    (hp : Puts c' h (some (b', t)) d) (hs : c'.streams = c.streams) (hr : c'.retired = c.retired)
    (ht : ∀ {b s}, c.entry h = some (b, s) → t.id = s.id ∧ (b = .closed → b' = .closed)) :
    Shifts c op d := by
  refine .keeps (hp.retired.trans hr) fun {k b s} hk => ?_
  have hent := hp.entry k
  by_cases hkh : k = h
  · subst hkh
    rw [if_pos rfl] at hent
    exact ⟨b', t, hent, ht hk⟩
  · rw [if_neg hkh] at hent
    unfold entry at hent hk
    rw [hs] at hent
    exact ⟨b, s, hent.trans hk, rfl, id⟩

/-- The stream under a handle is retired. -/
theorem Shifts.of_retired {c c' d : Client} {op : Operation} {h : Handle} {b : Bucket}
    {s t : Stream} (he : c.entry h = some (b, s)) (hp : Puts c' h none d)
    (hs : c'.streams = c.streams) (ht : t.id = s.id) (hr : c'.retired = c.retired ++ [t.ended]) :
    Shifts c op d := by
  refine .retires he ((hp.entry h).trans (if_pos rfl)) (fun {k} hk => ?_) (t := t.ended) ht
    ⟨rfl, rfl⟩ (hp.retired.trans hr)
  rw [hp.entry, if_neg hk]
  unfold entry
  rw [hs]

theorem Does.shifts {c d : Client} {op : Operation} {outs : List Output} (hd : Does c op d outs) :
    Shifts c op d := by
  cases hd with
  | absent _ _ _ | taken _ | unsent _ _ _ | ungranted _ =>
    exact .keeps rfl fun hk => ⟨_, _, hk, rfl, id⟩
  | swept => exact .sweeps rfl rfl rfl
  | started he hp =>
    refine .of_puts hp rfl rfl fun hk => ?_
    rw [he] at hk
    cases hk
  | sent _ _ _ _ he _ hp =>
    refine .of_puts hp rfl rfl fun hk => ?_
    cases he.symm.trans hk
    exact ⟨rfl, fun hb => hb⟩
  | cancelled he hp => exact .of_retired he hp rfl rfl rfl
  | @answered _ h b s a _ _ _ he hp =>
    unfold entryAfter at hp
    split at hp
    · rename_i hfin
      refine .of_retired he hp rfl (t := { s with response := (s.response.act a).state }) rfl ?_
      unfold settled
      exact if_pos hfin
    · rename_i hun
      refine .of_puts hp rfl (if_neg hun) fun hk => ?_
      cases he.symm.trans hk
      refine ⟨rfl, fun hb => ?_⟩
      rw [hb, ite_self]

/-- What holds of the retired streams. -/
structure Shelved (c : Client) : Prop where
  ended : ∀ {s}, s ∈ c.retired → s.localClosed = true ∧ s.remoteClosed = true
  gone : ∀ {s}, s ∈ c.retired → c.find s.id = none ∧ s.id.serial < c.nextSerial
  once : (c.retired.map Stream.id).Nodup

theorem shelved_advance {c : Client} (hc : c.Sound) (hs : c.Shelved) (m : Move) :
    (c.advance m).1.Shelved := by
  have hd := does_advance hc.disjoint m
  -- a stream retired before stays gone
  have still {s : Stream} (hm : s ∈ c.retired) :
      (c.advance m).1.find s.id = none ∧ s.id.serial < (c.advance m).1.nextSerial := by
    obtain ⟨hf, hn⟩ := hs.gone hm
    have hgone := (gone_after hc hf hn [m]).1
    have hle := hd.nextSerial
    exact ⟨hgone, by omega⟩
  cases hd.shifts with
  | keeps hr _ =>
    refine ⟨fun hm => ?_, fun hm => ?_, ?_⟩
    · exact hs.ended (hr ▸ hm)
    · exact still (hr ▸ hm)
    · rw [hr]
      exact hs.once
  | sweeps _ hr _ =>
    refine ⟨fun hm => ?_, fun hm => ?_, ?_⟩
    · rw [hr] at hm
      cases hm
    · rw [hr] at hm
      cases hm
    · rw [hr]
      exact List.nodup_nil
  | @retires h b s t he hnone _ hid hflags hr =>
    have hfits := hc.fits he
    have hfind : c.find t.id = some s := find_eq_some.mpr ⟨hid.symm, b, by rw [hid, hfits.handle, he]⟩
    refine ⟨fun hm => ?_, fun hm => ?_, ?_⟩
    · rw [hr, List.mem_append, List.mem_singleton] at hm
      rcases hm with hm | rfl
      · exact hs.ended hm
      · exact hflags
    · rw [hr, List.mem_append, List.mem_singleton] at hm
      rcases hm with hm | rfl
      · exact still hm
      · have hle := hd.nextSerial
        have hlt := serial_lt_of_find hc hfind
        refine ⟨?_, by omega⟩
        rw [find_of_entry rfl, hid, hfits.handle, hnone]
        rfl
    · rw [hr, List.map_append, List.map_singleton]
      refine List.nodup_append.mpr ⟨hs.once, List.nodup_cons.mpr ⟨by simp, List.nodup_nil⟩, ?_⟩
      intro id hold id' hnew heq
      obtain ⟨u, hu, rfl⟩ := List.mem_map.mp hold
      rw [List.mem_singleton] at hnew
      rw [← hnew, ← heq, (hs.gone hu).1] at hfind
      cases hfind

theorem filed_after {c : Client} (hc : c.Sound) (hf : c.Filed) (hs : c.Shelved) (ms : List Move) :
    (c.after ms).Filed ∧ (c.after ms).Shelved := by
  induction ms generalizing c with
  | nil => exact ⟨hf, hs⟩
  | cons m ms ih => exact ih (sound_advance hc m) (filed_advance hc hf m) (shelved_advance hc hs m)

theorem shelved_ofConfig (config : Config) (draws : Draws) :
    (ofConfig config draws).Shelved where
  ended hm := by cases hm
  gone hm := by cases hm
  once := List.nodup_nil

theorem Reachable.filed {c : Client} (hc : c.Reachable) : c.Filed ∧ c.Shelved := by
  obtain ⟨config, draws, ms, rfl⟩ := hc
  exact filed_after (sound_ofConfig config draws) (fun _ _ _ he => by cases he)
    (shelved_ofConfig config draws) ms

/-! ### Places -/

/-- Where a client keeps the stream of an identity. A stream that was started
and is kept nowhere has been destroyed. -/
def At (c : Client) (id : StreamId) : Place → Prop
  | .opened => ∃ h s, c.streams.opened.find? h = some s ∧ s.id = id
  | .closed => ∃ h s, c.streams.closed.find? h = some s ∧ s.id = id
  | .retired => ∃ s ∈ c.retired, s.id = id
  | .destroyed => (∀ h s, c.streams.opened.find? h = some s → s.id ≠ id) ∧
      (∀ h s, c.streams.closed.find? h = some s → s.id ≠ id) ∧ ∀ s ∈ c.retired, s.id ≠ id

/-- The place of a stream that was started. -/
def place (c : Client) (id : StreamId) : Place :=
  match (c.entry id.handle).filter fun e => e.2.id = id with
  | some (b, _) => b.place
  | none => if id ∈ c.retired.map Stream.id then .retired else .destroyed

section Place

variable {c : Client} {id : StreamId}

theorem place_of_entry {b : Bucket} {s : Stream} (he : c.entry id.handle = some (b, s))
    (hid : s.id = id) : c.place id = b.place := by
  unfold place
  simp [he, hid, Option.filter]

theorem place_of_find_none (hf : c.find id = none) :
    c.place id = if id ∈ c.retired.map Stream.id then .retired else .destroyed := by
  unfold place
  unfold find at hf
  cases he : c.entry id.handle with
  | none => rfl
  | some e =>
    have hid : ¬ e.2.id = id := by simpa [he, Option.filter] using hf
    simp [Option.filter, hid]

theorem entry_of_place (hp : (c.place id).stage = 0) :
    ∃ s, c.entry id.handle = some (.opened, s) ∧ s.id = id := by
  cases hf : c.find id with
  | some s =>
    obtain ⟨hid, b, he⟩ := find_eq_some.mp hf
    rw [place_of_entry he hid] at hp
    cases b with
    | opened => exact ⟨s, he, hid⟩
    | closed => cases hp
  | none =>
    rw [place_of_find_none hf] at hp
    split at hp <;> cases hp

theorem at_bucket (hc : c.Sound) (b : Bucket) :
    c.At id b.place ↔ ∃ s, c.entry id.handle = some (b, s) ∧ s.id = id := by
  have hlookup {h : Handle} {s : Stream} : c.entry h = some (b, s) ↔
      (match b with | .opened => c.streams.opened | .closed => c.streams.closed).find? h = some s := by
    cases b with
    | opened => exact Registry.lookup_opened
    | closed => exact Registry.lookup_closed hc.disjoint
  have hat : c.At id b.place ↔ ∃ h s, c.entry h = some (b, s) ∧ s.id = id := by
    simp only [hlookup]
    cases b <;> rfl
  rw [hat]
  constructor
  · rintro ⟨h, s, he, rfl⟩
    exact ⟨s, (hc.fits he).handle.symm ▸ he, rfl⟩
  · rintro ⟨s, he, hid⟩
    exact ⟨id.handle, s, he, hid⟩

theorem at_destroyed : c.At id .destroyed ↔
    ¬ c.At id .opened ∧ ¬ c.At id .closed ∧ ¬ c.At id .retired := by
  simp only [At, not_exists, not_and]

/-- A stream is in exactly one place. -/
theorem at_iff (hc : c.Sound) (hs : c.Shelved) (p : Place) : c.At id p ↔ p = c.place id := by
  have hopened : c.At id .opened ↔ _ := at_bucket hc .opened
  have hclosed : c.At id .closed ↔ _ := at_bucket hc .closed
  cases hf : c.find id with
  | some s =>
    obtain ⟨hid, b, he⟩ := find_eq_some.mp hf
    have hretired : ¬ c.At id .retired := by
      rintro ⟨t, ht, rfl⟩
      rw [(hs.gone ht).1] at hf
      cases hf
    rw [place_of_entry he hid]
    cases b <;> cases p <;> simp_all [Registry.Bucket.place, at_destroyed]
  | none =>
    have hno (b : Bucket) : ¬ ∃ s, c.entry id.handle = some (b, s) ∧ s.id = id := by
      rintro ⟨s, he, hid⟩
      rw [find_eq_some.mpr ⟨hid, b, he⟩] at hf
      cases hf
    have hretired : c.At id .retired ↔ id ∈ c.retired.map Stream.id := List.mem_map.symm
    rw [place_of_find_none hf]
    split <;> cases p <;> simp_all [at_destroyed]

end Place

/-! ### From place to place -/

/-- What an operation can do to the place of a stream that was started. -/
inductive Goes (c : Client) (id : StreamId) (op : Operation) (d : Client) : Prop
  | stays : d.place id = c.place id → Goes c id op d
  | closes : c.place id = .opened → d.place id = .closed → Goes c id op d
  | retires {b : Bucket} : c.place id = b.place → d.place id = .retired → Goes c id op d
  | sweeps : op = .sweep → c.place id = .retired → d.place id = .destroyed → Goes c id op d

section Goes

variable {c : Client} {id : StreamId} {m : Move}

theorem goes_of_registered (hc : c.Sound) {b : Bucket} {s : Stream}
    (he : c.entry id.handle = some (b, s)) (hid : s.id = id) :
    Goes c id m.op (c.advance m).1 := by
  have hp := place_of_entry he hid
  have stays (hent : (c.advance m).1.entry id.handle = c.entry id.handle) :
      Goes c id m.op (c.advance m).1 := .stays ((place_of_entry (hent.trans he) hid).trans hp.symm)
  cases (does_advance hc.disjoint m).shifts with
  | keeps _ hent =>
    obtain ⟨b', t, ht, htid, hclosed⟩ := hent he
    have hp' := place_of_entry ht (htid.trans hid)
    cases b with
    | closed =>
      rw [hclosed rfl] at hp'
      exact .stays (hp'.trans hp.symm)
    | opened =>
      cases b' with
      | opened => exact .stays (hp'.trans hp.symm)
      | closed => exact .closes hp hp'
  | @retires h b' s' t he' hnone hother htid _ hr =>
    by_cases hh : id.handle = h
    · subst hh
      cases he.symm.trans he'
      refine .retires hp ?_
      rw [place_of_find_none (find_of_entry hnone), if_pos]
      rw [hr, List.map_append, List.map_singleton, htid, hid]
      exact List.mem_append_right _ (List.mem_singleton_self id)
    · exact stays (hother hh)
  | sweeps _ _ hent => exact stays hent

theorem goes_of_unregistered (hc : c.Sound) (hf : c.find id = none)
    (hn : id.serial < c.nextSerial) : Goes c id m.op (c.advance m).1 := by
  have hp := place_of_find_none hf
  have hp' := place_of_find_none (gone_after hc hf hn [m]).1
  rw [show c.after [m] = (c.advance m).1 from rfl] at hp'
  cases (does_advance hc.disjoint m).shifts with
  | keeps hr _ =>
    rw [hr] at hp'
    exact .stays (hp'.trans hp.symm)
  | @retires h b s t he _ _ htid _ hr =>
    have hne : id ≠ t.id := by
      rintro rfl
      have hfind : c.find t.id = some s :=
        find_eq_some.mpr ⟨htid.symm, b, by rw [htid, (hc.fits he).handle, he]⟩
      rw [hf] at hfind
      cases hfind
    have hmem : id ∈ (c.advance m).1.retired.map Stream.id ↔ id ∈ c.retired.map Stream.id := by
      rw [hr, List.map_append, List.mem_append, List.map_singleton, List.mem_singleton]
      exact or_iff_left hne
    simp only [hmem] at hp'
    exact .stays (hp'.trans hp.symm)
  | sweeps hop hr _ =>
    rw [hr] at hp'
    by_cases hret : id ∈ c.retired.map Stream.id
    · rw [if_pos hret] at hp
      exact .sweeps hop hp hp'
    · rw [if_neg hret] at hp
      exact .stays (hp'.trans hp.symm)

theorem goes_advance (hc : c.Sound) (hn : id.serial < c.nextSerial) (m : Move) :
    Goes c id m.op (c.advance m).1 := by
  cases hf : c.find id with
  | none => exact goes_of_unregistered hc hf hn
  | some s =>
    obtain ⟨hid, b, he⟩ := find_eq_some.mp hf
    exact goes_of_registered hc he hid

theorem Goes.stage_le {op : Operation} {d : Client} (hg : Goes c id op d) :
    (c.place id).stage ≤ (d.place id).stage := by
  cases hg with
  | stays h => exact Nat.le_of_eq (congrArg Place.stage h.symm)
  | closes h h' => simp [h, h', Place.stage]
  | @retires b h h' => cases b <;> simp [h, h', Place.stage, Registry.Bucket.place]
  | sweeps _ h h' => simp [h, h', Place.stage]

/-- A stream is destroyed by a sweep, and was retired before that. -/
theorem Goes.destroyed {op : Operation} {d : Client} (hg : Goes c id op d)
    (hd : d.place id = .destroyed) :
    c.place id = .destroyed ∨ c.place id = .retired ∧ op = .sweep := by
  cases hg with
  | stays h => exact .inl (h ▸ hd)
  | closes _ h | retires _ h =>
    rw [h] at hd
    cases hd
  | sweeps hop h _ => exact .inr ⟨h, hop⟩

/-- In a run a stream goes from its place to later ones only. -/
theorem stage_le_after (hc : c.Sound) (hn : id.serial < c.nextSerial) (ms : List Move) :
    (c.place id).stage ≤ ((c.after ms).place id).stage := by
  induction ms generalizing c with
  | nil => exact Nat.le_refl _
  | cons m ms ih =>
    have hle := (does_advance hc.disjoint m).nextSerial
    have hstep := (goes_advance hc hn m).stage_le
    exact Nat.le_trans hstep (ih (sound_advance hc m) (by omega))

end Goes

/-! ### From the start of a stream on -/

theorem place_of_opened {c : Client} (hc : c.Sound) {id : StreamId} {m : Move}
    (ho : .opened id ∈ (c.advance m).2) : (c.advance m).1.place id = .opened := by
  have hd := does_advance hc.disjoint m
  generalize c.advance m = r at hd ho ⊢
  obtain ⟨d, outs⟩ := r
  dsimp only at hd ho ⊢
  generalize m.op = op at hd
  cases hd with
  | absent _ _ _ | taken _ | unsent _ _ _ | ungranted _ | swept => cases ho
  | sent _ _ _ _ _ _ _ | cancelled _ _ => simp at ho
  | answered _ _ _ _ => exact absurd ho (opened_notMem_answer _ _)
  | @started h _ _ hp =>
    rw [List.mem_singleton, Output.opened.injEq] at ho
    subst ho
    have hent : d.entry h = some (.opened, c.fresh h) := (hp.entry h).trans (if_pos rfl)
    change d.place (c.fresh h).id = Registry.Bucket.opened.place
    exact place_of_entry hent rfl

/-- A stream that is kept as retired was started in the run. -/
theorem opened_of_retired {c : Client} (hc : c.Sound) (hnone : ∀ id, c.find id = none)
    (hr : c.retired = []) {ms : List Move} {s : Stream} (hs : s ∈ (c.after ms).retired) :
    .opened s.id ∈ (c.outputs ms).flatten := by
  induction ms using List.reverseRecOn with
  | nil =>
    rw [show c.after [] = c from rfl, hr] at hs
    cases hs
  | append_singleton ms m ih =>
    have hb := sound_after hc ms
    rw [outputs_append, List.flatten_append]
    apply List.mem_append_left
    rw [after_append] at hs
    change s ∈ ((c.after ms).advance m).1.retired at hs
    cases (does_advance hb.disjoint m).shifts with
    | keeps hkeep _ => exact ih (hkeep ▸ hs)
    | sweeps _ hnil _ =>
      rw [hnil] at hs
      cases hs
    | @retires h b t u he _ _ hid _ happ =>
      rw [happ, List.mem_append, List.mem_singleton] at hs
      rcases hs with hs | rfl
      · exact ih hs
      · have hfind : (c.after ms).find s.id = some t :=
          find_eq_some.mpr ⟨hid.symm, b, by rw [hid, (hb.fits he).handle, he]⟩
        exact opened_of_find hc (hnone _) (by simp [hfind])

section Run

variable (config : Config) (draws : Draws) (ms : List Move)

theorem openLog_of_entry {h : Handle} {b : Bucket} {s : Stream}
    (he : ((ofConfig config draws).after ms).entry h = some (b, s)) :
    OpenLog ((ofConfig config draws).log s.id ms) := by
  have hc := sound_ofConfig config draws
  have hfits := (sound_after hc ms).fits he
  have hfind : ((ofConfig config draws).after ms).find s.id = some s :=
    find_eq_some.mpr ⟨rfl, b, hfits.handle.symm ▸ he⟩
  have hid : .opened s.id ∈ ((ofConfig config draws).outputs ms).flatten :=
    opened_of_find hc rfl (by simp [hfind])
  rcases log_of_started hc rfl hid with ⟨ho, -⟩ | ⟨-, hgone⟩
  · exact ho
  · rw [hgone] at hfind
    cases hfind

theorem endedLog_of_retired {s : Stream}
    (hs : s ∈ ((ofConfig config draws).after ms).retired) :
    EndedLog ((ofConfig config draws).log s.id ms) := by
  have hc := sound_ofConfig config draws
  have hid := opened_of_retired hc (fun _ => rfl) rfl hs
  have hgone := (Reachable.filed ⟨config, draws, ms, rfl⟩).2.gone hs
  rcases log_of_started hc rfl hid with ⟨-, hl⟩ | ⟨hended, -⟩
  · rw [hgone.1] at hl
    cases hl
  · exact hended

/-- At every moment of a run each stream that was started is in exactly one
place. It goes forward only, and is destroyed by a sweep alone, so not by the
operation that retired it, and by the end of a dispatcher's turn at the latest.
Each bucket and the list of retired streams hold what their names say, and each
stream goes by the handle it is registered under. Ongoing data never ends a
stream. -/
theorem streams_move_forward :
    let start := ofConfig config draws
    let c := start.after ms
    (∀ h s, c.streams.opened.find? h = some s →
      s.id.handle = h ∧ s.remoteClosed = false ∧ OpenLog (start.log s.id ms)) ∧
    (∀ h s, c.streams.closed.find? h = some s →
      s.id.handle = h ∧ s.remoteClosed = true ∧ s.response.Owing ∧
        OpenLog (start.log s.id ms)) ∧
    (∀ s ∈ c.retired, s.localClosed = true ∧ s.remoteClosed = true ∧
      EndedLog (start.log s.id ms)) ∧
    (c.retired.map Stream.id).Nodup ∧
    (∀ id, .opened id ∈ (start.outputs ms).flatten → ∃! p, c.At id p) ∧
    (∀ before later, ms = before ++ later → ∀ id, .opened id ∈ (start.outputs before).flatten →
      ∀ p q, (start.after before).At id p → c.At id q → p.stage ≤ q.stage) ∧
    (∀ before m later, ms = before ++ m :: later → ∀ id,
      (.opened id ∈ ((start.after before).advance m).2 →
        (start.after (before ++ [m])).At id .opened) ∧
      (.opened id ∈ (start.outputs before).flatten →
        (start.after (before ++ [m])).At id .destroyed →
        (start.after before).At id .destroyed ∨
          (start.after before).At id .retired ∧ m.op = .sweep)) ∧
    (∀ (w : Host) (t : Task) (v : Host), w.turn t = .ok v → v.client.retired = []) ∧
    ∀ (s : Response) (bytes : Bytes), (s.forwardData bytes false).disposition = .unfinished := by
  intro start c
  have hstart := sound_ofConfig config draws
  have hreach (xs : List Move) : (start.after xs).Reachable := ⟨config, draws, xs, rfl⟩
  have hc := (hreach ms).sound
  obtain ⟨hfiled, hshelved⟩ := (hreach ms).filed
  refine ⟨fun h s hs => ?_, fun h s hs => ?_, fun s hs => ?_, hshelved.once, fun id _ => ?_,
    fun before later hms id ho p q hp hq => ?_,
    fun before m later _ id => ⟨fun ho => ?_, fun ho hgone => ?_⟩, fun w t v hv => ?_,
    fun s bytes => rfl⟩
  · have he : c.entry h = some (.opened, s) := Registry.lookup_opened.mpr hs
    obtain ⟨hflag, -⟩ := hfiled h _ s he
    exact ⟨(hc.fits he).handle, by simpa using hflag, openLog_of_entry config draws ms he⟩
  · have he : c.entry h = some (.closed, s) := (Registry.lookup_closed hc.disjoint).mpr hs
    obtain ⟨hflag, hdebt⟩ := hfiled h _ s he
    exact ⟨(hc.fits he).handle, hflag.mpr rfl, hdebt.mpr rfl,
      openLog_of_entry config draws ms he⟩
  · have hflags := hshelved.ended hs
    exact ⟨hflags.1, hflags.2, endedLog_of_retired config draws ms hs⟩
  · exact ⟨c.place id, (at_iff hc hshelved _).mpr rfl, fun p hp => (at_iff hc hshelved p).mp hp⟩
  · have hn := serial_lt_of_opened hstart (by rfl) ho
    have hle := stage_le_after (hreach before).sound hn later
    rw [at_iff (hreach _).sound (hreach _).filed.2] at hp
    have hlater : start.after ms = (start.after before).after later := by
      rw [hms, after_append]
    rw [at_iff hc hshelved, hlater] at hq
    subst hp hq
    exact hle
  · have hb := (hreach (before ++ [m])).sound
    have hplace := place_of_opened (hreach before).sound ho
    rw [at_iff hb (hreach _).filed.2, after_append]
    exact hplace.symm
  · have hn := serial_lt_of_opened hstart (by rfl) ho
    have hgoes := goes_advance (hreach before).sound hn m
    rw [at_iff (hreach _).sound (hreach _).filed.2, after_append] at hgone
    rw [at_iff (hreach _).sound (hreach _).filed.2, at_iff (hreach _).sound (hreach _).filed.2]
    rcases hgoes.destroyed hgone.symm with hplace | ⟨hplace, hop⟩
    · exact .inl hplace.symm
    · exact .inr ⟨hplace.symm, hop⟩
  · unfold Host.turn at hv
    cases hr : w.run t with
    | error f =>
      rw [hr] at hv
      cases hv
    | ok r =>
      rw [hr] at hv
      cases (Host.operate_sweep r.1).symm.trans hv
      rfl

end Run

/-- A stream that goes through all places: the end of its response waits for
credit, a grant brings it, and a sweep destroys the stream. -/
theorem stream_moves_through_places :
    let start := ofConfig { flowControl := { explicit := true } } {}
    let ms := [Operation.start ⟨1⟩, .onData ⟨1⟩ [1, 2] true, .resume ⟨1⟩ 2, .sweep].map
      (Move.mk · .generic)
    Output.opened ⟨⟨1⟩, 0⟩ ∈ (start.outputs (ms.take 3)).flatten ∧
      [1, 2, 3, 4].map (fun n => (start.after (ms.take n)).place ⟨⟨1⟩, 0⟩) =
        [.opened, .closed, .retired, .destroyed] ∧
      (∃! p, (start.after ms).At ⟨⟨1⟩, 0⟩ p) ∧
      (∀ p q, (start.after (ms.take 1)).At ⟨⟨1⟩, 0⟩ p → (start.after ms).At ⟨⟨1⟩, 0⟩ q →
        p.stage ≤ q.stage) ∧
      ((start.after ms).At ⟨⟨1⟩, 0⟩ .destroyed →
        (start.after (ms.take 3)).At ⟨⟨1⟩, 0⟩ .destroyed ∨
          (start.after (ms.take 3)).At ⟨⟨1⟩, 0⟩ .retired ∧ Operation.sweep = .sweep) := by
  intro start ms
  obtain ⟨-, -, -, -, hplace, hforward, hstep, -, -⟩ :=
    streams_move_forward { flowControl := { explicit := true } } {} ms
  refine ⟨by decide, by decide, hplace _ (by decide), ?_, ?_⟩
  · exact hforward (ms.take 1) (ms.drop 1) rfl ⟨⟨1⟩, 0⟩ (by decide)
  · exact (hstep (ms.take 3) ⟨.sweep, .generic⟩ [] rfl ⟨⟨1⟩, 0⟩).2 (by decide)

end Client
end HttpExchange
