/-
# A registry through any calls

Whatever calls a registry has taken, it is one map from handles to a bucket and a
stream. A call reads and changes the entry under its own handle only, by a rule that
knows nothing of two dictionaries (`RegistryCall.act`), and answers by the same rule
(`Registry.perform_lookup`). The open dictionary is searched first; that this finds
the right stream rests on no handle being in both, which every call keeps.

Under one handle the successful calls form stays: a stream is inserted, changed,
moved to the closed bucket at most once, and removed as it is by then. All stays but
the last are over, and the last is what the map holds (`Stay.Recorded`).

Key definitions: `RegistryCall`, `RegistryCall.act`, `Registry.Table`,
`Registry.perform`, `Registry.Change`, `Stay`, `Stay.Recorded`.
Key theorems: `Registry.perform_lookup`, `Stay.recorded_act`, `Registry.run_lookup`,
`Registry.recorded_run`, `Registry.calls_refine_one_map`.
-/
import Mathlib.Data.Set.Card
import HttpExchange.Proofs.Registry

namespace HttpExchange

/-! ### The calls -/

/-- A call on a registry. -/
inductive RegistryCall (σ : Type)
  | insert (h : Handle) (s : σ)
  /-- Looks a stream up and changes the one that is found. -/
  | update (h : Handle) (scope : Scope) (f : σ → σ)
  | contains (h : Handle) (scope : Scope)
  | close (h : Handle)
  | remove (h : Handle)

/-- What a call answers. -/
inductive RegistryAnswer (σ : Type)
  | inserted
  | refused (f : Fault)
  /-- The stream that was found, as it was before the call. -/
  | found (s : Option σ)
  | flag (b : Bool)
  deriving DecidableEq

/-- The buckets that a scope reaches. -/
def Scope.reaches : Scope → Registry.Bucket → Bool
  | .openOnly, b => b == .opened
  | .anyState, _ => true

variable {σ : Type}

namespace RegistryCall

/-- The handle a call is about. -/
def handle : RegistryCall σ → Handle
  | insert h _ | update h _ _ | contains h _ | close h | remove h => h

/-- What a call makes of the entry under its handle, and what it answers. -/
def act : RegistryCall σ → Option (Registry.Bucket × σ) →
    Option (Registry.Bucket × σ) × RegistryAnswer σ
  | insert _ s, none => (some (.opened, s), .inserted)
  | insert h _, some e => (some e, .refused (.registeredTwice h))
  | update _ _ _, none => (none, .found none)
  | update _ scope f, some (b, s) =>
    if scope.reaches b then (some (b, f s), .found (some s)) else (some (b, s), .found none)
  | contains _ scope, e => (e, .flag (e.any fun e => scope.reaches e.1))
  | close _, some (.opened, s) => (some (.closed, s), .flag true)
  | close _, e => (e, .flag false)
  | remove _, e => (none, .found (e.map Prod.snd))

/-- Calls one after the other, and what they answer. -/
def run {τ : Type} (perform : τ → RegistryCall σ → τ × RegistryAnswer σ) (t : τ) :
    List (RegistryCall σ) → τ × List (RegistryAnswer σ)
  | [] => (t, [])
  | c :: cs =>
    let r := run perform (perform t c).1 cs
    (r.1, (perform t c).2 :: r.2)

end RegistryCall

/-! ### One call -/

namespace Registry

/-- The entries under all handles. -/
abbrev Table (σ : Type) := Handle → Option (Bucket × σ)

/-- A call on a table. -/
def Table.perform (t : Table σ) (c : RegistryCall σ) : Table σ × RegistryAnswer σ :=
  (Function.update t c.handle (c.act (t c.handle)).1, (c.act (t c.handle)).2)

/-- Calls on a table one after the other, and what they answer. -/
def Table.run (t : Table σ) (cs : List (RegistryCall σ)) : Table σ × List (RegistryAnswer σ) :=
  RegistryCall.run Table.perform t cs

/-- A call on a registry. One that ends in a fault leaves it as it was. -/
def perform (r : Registry σ) : RegistryCall σ → Registry σ × RegistryAnswer σ
  | .insert h s =>
    match r.insert h s with
    | .ok r' => (r', .inserted)
    | .error f => (r, .refused f)
  | .update h scope f => (r.modify h scope f, .found (r.find? h scope))
  | .contains h scope => (r, .flag (r.contains h scope))
  | .close h => ((r.close h).1, .flag (r.close h).2)
  | .remove h =>
    match r.remove h with
    | some (s, r') => (r', .found (some s))
    | none => (r, .found none)

/-- Calls on a registry one after the other, and what they answer. -/
def run (r : Registry σ) (cs : List (RegistryCall σ)) : Registry σ × List (RegistryAnswer σ) :=
  RegistryCall.run perform r cs

variable {r : Registry σ}

theorem find?_eq_some (r : Registry σ) (h : Handle) (scope : Scope) (s : σ) :
    r.find? h scope = some s ↔ ∃ b, r.lookup h = some (b, s) ∧ scope.reaches b = true := by
  cases scope with
  | openOnly =>
    rw [find?_openOnly]
    rcases r.lookup h with _ | ⟨b, t⟩
    · simp
    · cases b <;> simp [Scope.reaches]
  | anyState =>
    rw [find?_anyState]
    rcases r.lookup h with _ | ⟨b, t⟩ <;> simp [Scope.reaches]

theorem contains_eq_isSome (r : Registry σ) (h : Handle) (scope : Scope) :
    r.contains h scope = (r.find? h scope).isSome := by
  cases scope with
  | openOnly => rfl
  | anyState => rw [contains_anyState, find?_anyState, Option.isSome_map]

/-- A lookup that finds nothing changes nothing. -/
theorem modify_of_not_found {h : Handle} {scope : Scope} (hn : r.find? h scope = none)
    (f : σ → σ) (k : Handle) : (r.modify h scope f).lookup k = r.lookup k := by
  cases scope with
  | openOnly =>
    have ho : r.opened.contains h = false := by
      unfold Dict.contains
      rw [show r.opened.find? h = none from hn]
      rfl
    unfold modify
    rw [if_neg (by simp [ho])]
  | anyState =>
    rw [find?_anyState, Option.map_eq_none_iff] at hn
    rw [lookup_modify]
    by_cases hk : k = h
    · rw [if_pos hk, hk, hn]
      rfl
    · rw [if_neg hk]

theorem lookup_modify_found {h : Handle} {b : Bucket} {s : σ} (he : r.lookup h = some (b, s))
    {scope : Scope} (hb : scope.reaches b = true) (f : σ → σ) (k : Handle) :
    (r.modify h scope f).lookup k = if k = h then some (b, f s) else r.lookup k := by
  cases scope with
  | openOnly =>
    have hopen : b = .opened := by simpa [Scope.reaches] using hb
    subst hopen
    exact lookup_modify_openOnly he k f
  | anyState =>
    rw [lookup_modify, he]
    rfl

/-- A call treats the entry under its handle by its rule and leaves the others. -/
structure Follows (r : Registry σ) (c : RegistryCall σ) : Prop where
  entry : ∀ k, (r.perform c).1.lookup k =
    if k = c.handle then (c.act (r.lookup c.handle)).1 else r.lookup k
  answer : (r.perform c).2 = (c.act (r.lookup c.handle)).2

/-- A call whose rule changes nothing follows it if no entry shows a difference. -/
theorem Follows.of_idle {c : RegistryCall σ} {a : RegistryAnswer σ}
    (hrule : c.act (r.lookup c.handle) = (r.lookup c.handle, a))
    (hentry : ∀ k, (r.perform c).1.lookup k = r.lookup k) (ha : (r.perform c).2 = a) :
    r.Follows c where
  entry k := by
    rw [hentry, hrule]
    by_cases hk : k = c.handle
    · rw [if_pos hk, hk]
    · rw [if_neg hk]
  answer := by rw [ha, hrule]

theorem follows_insert (r : Registry σ) (h : Handle) (s : σ) : r.Follows (.insert h s) := by
  cases he : r.lookup h with
  | none =>
    obtain ⟨r', hr'⟩ := insert_of_unregistered he s
    have hperform : r.perform (.insert h s) = (r', .inserted) := by simp only [perform, hr']
    constructor
    · intro k
      rw [hperform]
      show r'.lookup k = if k = h then (RegistryCall.act _ (r.lookup h)).1 else _
      rw [he]
      exact lookup_insert hr' k
    · rw [hperform]
      show _ = (RegistryCall.act _ (r.lookup h)).2
      rw [he]
      rfl
  | some e =>
    have hperform : r.perform (.insert h s) = (r, .refused (.registeredTwice h)) := by
      simp only [perform, insert_of_registered (he ▸ Option.some_ne_none e) s]
    refine .of_idle (a := .refused (.registeredTwice h)) ?_ ?_ ?_
    · show RegistryCall.act _ (r.lookup h) = (r.lookup h, _)
      rw [he]
      rfl
    · intro k
      rw [hperform]
    · rw [hperform]

theorem follows_update (r : Registry σ) (h : Handle) (scope : Scope) (f : σ → σ) :
    r.Follows (.update h scope f) := by
  cases hfound : r.find? h scope with
  | none =>
    refine .of_idle (a := .found none) ?_ (modify_of_not_found hfound f) ?_
    · show RegistryCall.act _ (r.lookup h) = (r.lookup h, _)
      rcases he : r.lookup h with _ | ⟨b, s⟩
      · rfl
      · have hb : ¬ scope.reaches b = true := by
          intro hb
          rw [(find?_eq_some r h scope s).mpr ⟨b, he, hb⟩] at hfound
          cases hfound
        simp only [RegistryCall.act, if_neg hb]
    · show RegistryAnswer.found (r.find? h scope) = _
      rw [hfound]
  | some s =>
    obtain ⟨b, he, hb⟩ := (find?_eq_some r h scope s).mp hfound
    have hrule : (RegistryCall.update h scope f).act (r.lookup h) =
        (some (b, f s), .found (some s)) := by
      rw [he]
      exact if_pos hb
    constructor
    · intro k
      show (r.modify h scope f).lookup k = if k = h then (RegistryCall.act _ (r.lookup h)).1 else _
      rw [hrule, lookup_modify_found he hb f]
    · show RegistryAnswer.found (r.find? h scope) = (RegistryCall.act _ (r.lookup h)).2
      rw [hrule, hfound]

theorem follows_contains (r : Registry σ) (h : Handle) (scope : Scope) :
    r.Follows (.contains h scope) := by
  refine .of_idle rfl (fun _ => rfl) ?_
  show RegistryAnswer.flag (r.contains h scope) = .flag ((r.lookup h).any _)
  have hiff : r.contains h scope = true ↔ (r.lookup h).any (fun e => scope.reaches e.1) = true := by
    rw [contains_eq_isSome, Option.isSome_iff_exists]
    simp only [find?_eq_some, Option.any_eq_true, Prod.exists]
    exact exists_comm
  rw [Bool.eq_iff_iff.mpr hiff]

theorem follows_close (r : Registry σ) (h : Handle) : r.Follows (.close h) := by
  have hflag : (r.close h).2 = ((r.lookup h).any fun e => e.1 == .opened) := by
    unfold close lookup
    cases r.opened.find? h with
    | some s => rfl
    | none => cases r.closed.find? h <;> rfl
  have hrule : (RegistryCall.close h).act (r.lookup h) =
      ((r.lookup h).map fun e => (.closed, e.2), .flag (r.close h).2) := by
    rw [hflag]
    rcases r.lookup h with _ | ⟨b, s⟩
    · rfl
    · cases b <;> rfl
  constructor
  · intro k
    show (r.close h).1.lookup k = if k = h then (RegistryCall.act _ (r.lookup h)).1 else _
    rw [hrule, lookup_close]
  · show RegistryAnswer.flag (r.close h).2 = (RegistryCall.act _ (r.lookup h)).2
    rw [hrule]

theorem follows_remove (hr : r.Disjoint) (h : Handle) : r.Follows (.remove h) := by
  cases hs : r.remove h with
  | none =>
    have hperform : r.perform (.remove h) = (r, .found none) := by simp only [perform, hs]
    have he : r.lookup h = none := (remove_eq_none r h).mp hs
    refine .of_idle (a := .found none) ?_ ?_ ?_
    · show (none, RegistryAnswer.found ((r.lookup h).map _)) = (r.lookup h, _)
      rw [he]
      rfl
    · intro k
      rw [hperform]
    · rw [hperform]
  | some p =>
    obtain ⟨s, r'⟩ := p
    have hperform : r.perform (.remove h) = (r', .found (some s)) := by simp only [perform, hs]
    obtain ⟨hcurrent, hgone⟩ := lookup_remove hr hs
    constructor
    · intro k
      rw [hperform]
      exact hgone k
    · rw [hperform, ← hcurrent]
      rfl

theorem follows (hr : r.Disjoint) : ∀ c : RegistryCall σ, r.Follows c
  | .insert h s => follows_insert r h s
  | .update h scope f => follows_update r h scope f
  | .contains h scope => follows_contains r h scope
  | .close h => follows_close r h
  | .remove h => follows_remove hr h

/-- A call does to a registry what it does to the table of its entries. -/
theorem perform_lookup (hr : r.Disjoint) (c : RegistryCall σ) :
    Table.perform r.lookup c = ((r.perform c).1.lookup, (r.perform c).2) := by
  have hc := follows hr c
  unfold Table.perform
  rw [hc.answer]
  congr 1
  funext k
  rw [hc.entry, Function.update_apply]

theorem disjoint_perform (hr : r.Disjoint) (c : RegistryCall σ) : (r.perform c).1.Disjoint := by
  cases c with
  | insert h s =>
    dsimp only [perform]
    cases hi : r.insert h s with
    | ok r' => exact disjoint_insert hr hi
    | error f => exact hr
  | update h scope f => exact disjoint_modify hr h scope f
  | contains h scope => exact hr
  | close h => exact disjoint_close hr h
  | remove h =>
    dsimp only [perform]
    cases hs : r.remove h with
    | none => exact hr
    | some p =>
      obtain ⟨s, r'⟩ := p
      exact disjoint_remove hr hs

end Registry

/-! ### Stays -/

/-- What a call can do to the stream under a handle. -/
inductive Registry.Change (σ : Type)
  | inserted (s : σ)
  | updated (f : σ → σ)
  | closed
  | removed (s : σ)

/-- What a call has done, by its answer. -/
def RegistryCall.change? : RegistryCall σ → RegistryAnswer σ → Option (Registry.Change σ)
  | insert _ s, .inserted => some (.inserted s)
  | update _ _ f, .found (some _) => some (.updated f)
  | close _, .flag true => some .closed
  | remove _, .found (some s) => some (.removed s)
  | _, _ => none

/-- What was done under a handle, in order. -/
def RegistryCall.changesUnder (h : Handle) (cs : List (RegistryCall σ))
    (answers : List (RegistryAnswer σ)) : List (Registry.Change σ) :=
  (cs.zip answers).flatMap fun p => if p.1.handle = h then (p.1.change? p.2).toList else []

/-- A stream under its handle since it was inserted: the stream as it came, and the
changes to it in the open bucket and then, if it was moved, in the closed one. -/
inductive Stay (σ : Type)
  | opened (s : σ) (fs : List (σ → σ))
  | closed (s : σ) (fs gs : List (σ → σ))

namespace Stay

/-- The bucket and the stream with all changes made. -/
def entry : Stay σ → Registry.Bucket × σ
  | opened s fs => (.opened, fs.foldl (fun s f => f s) s)
  | closed s fs gs => (.closed, (fs ++ gs).foldl (fun s f => f s) s)

/-- What was done to the stream so far. -/
def changes : Stay σ → List (Registry.Change σ)
  | opened s fs => .inserted s :: fs.map .updated
  | closed s fs gs => .inserted s :: fs.map .updated ++ .closed :: gs.map .updated

/-- All that was done to a stream that is gone: it was removed as it was then. -/
def ended (v : Stay σ) : List (Registry.Change σ) := v.changes ++ [.removed v.entry.2]

/-- What was done under a handle is stays that are over and the one that goes on, if
there is an entry. -/
def Recorded (e : Option (Registry.Bucket × σ)) (ds : List (Registry.Change σ)) : Prop :=
  ∃ (past : List (Stay σ)) (now : Option (Stay σ)),
    ds = past.flatMap ended ++ now.toList.flatMap changes ∧ e = now.map entry

theorem recorded_nothing : Recorded (none : Option (Registry.Bucket × σ)) [] :=
  ⟨[], none, rfl, rfl⟩

variable {ds : List (Registry.Change σ)}

/-- Where there is no entry all stays are over. -/
theorem Recorded.vacant (hd : Recorded (none : Option (Registry.Bucket × σ)) ds) :
    ∃ past : List (Stay σ), ds = past.flatMap ended := by
  obtain ⟨past, now, hds, he⟩ := hd
  cases now with
  | none => exact ⟨past, by simpa using hds⟩
  | some v => cases he

/-- Where there is one, it is that of a stay that goes on. -/
theorem Recorded.taken {e : Registry.Bucket × σ} (hd : Recorded (some e) ds) :
    ∃ (past : List (Stay σ)) (v : Stay σ), ds = past.flatMap ended ++ v.changes ∧ e = v.entry := by
  obtain ⟨past, now, hds, he⟩ := hd
  cases now with
  | none => cases he
  | some v => exact ⟨past, v, by simpa using hds, Option.some.inj he⟩

/-- The stay goes on with one more thing done. -/
theorem recorded_next (past : List (Stay σ)) {v w : Stay σ} {d : Registry.Change σ}
    (hw : w.changes = v.changes ++ [d]) :
    Recorded (some w.entry) (past.flatMap ended ++ v.changes ++ [d]) :=
  ⟨past, some w, by simp [hw], rfl⟩

theorem exists_update (v : Stay σ) (f : σ → σ) :
    ∃ w : Stay σ, w.changes = v.changes ++ [.updated f] ∧ w.entry = (v.entry.1, f v.entry.2) := by
  cases v with
  | opened s fs => exact ⟨.opened s (fs ++ [f]), by simp [changes], by simp [entry]⟩
  | closed s fs gs => exact ⟨.closed s fs (gs ++ [f]), by simp [changes], by simp [entry]⟩

theorem exists_close {v : Stay σ} (hv : v.entry.1 = .opened) :
    ∃ w : Stay σ, w.changes = v.changes ++ [.closed] ∧ w.entry = (.closed, v.entry.2) := by
  cases v with
  | opened s fs => exact ⟨.closed s fs [], by simp [changes], by simp [entry]⟩
  | closed s fs gs => cases hv

/-- A call on the handle adds what it does to the stays under it. -/
theorem recorded_act {e : Option (Registry.Bucket × σ)} (hd : Recorded e ds) (c : RegistryCall σ) :
    Recorded (c.act e).1 (ds ++ (c.change? (c.act e).2).toList) := by
  have hidle : Recorded e (ds ++ []) := by rwa [List.append_nil]
  cases c with
  | insert h s =>
    cases e with
    | none =>
      obtain ⟨past, rfl⟩ := hd.vacant
      refine ⟨past, some (.opened s []), ?_, rfl⟩
      simp [changes, RegistryCall.change?, RegistryCall.act]
    | some e => exact hidle
  | update h scope f =>
    cases e with
    | none => exact hidle
    | some e =>
      dsimp only [RegistryCall.act]
      by_cases hb : scope.reaches e.1 = true
      · obtain ⟨past, v, rfl, rfl⟩ := hd.taken
        obtain ⟨w, hchanges, hentry⟩ := exists_update v f
        rw [if_pos hb, ← hentry]
        exact recorded_next past hchanges
      · rw [if_neg hb]
        exact hidle
  | contains h scope => exact hidle
  | close h =>
    rcases e with _ | ⟨b, s⟩
    · exact hidle
    · cases b with
      | opened =>
        obtain ⟨past, v, rfl, he⟩ := hd.taken
        obtain ⟨w, hchanges, hentry⟩ := exists_close (v := v) (by rw [← he])
        rw [← he] at hentry
        show Recorded (some (.closed, s)) _
        rw [← hentry]
        exact recorded_next past hchanges
      | closed => exact hidle
  | remove h =>
    cases e with
    | none => exact hidle
    | some e =>
      obtain ⟨past, v, rfl, rfl⟩ := hd.taken
      refine ⟨past ++ [v], none, ?_, rfl⟩
      simp [ended, RegistryCall.change?, RegistryCall.act]

end Stay

/-! ### Any number of calls -/

namespace Registry

variable {r : Registry σ}

theorem disjoint_run (hr : r.Disjoint) (cs : List (RegistryCall σ)) : (r.run cs).1.Disjoint := by
  induction cs generalizing r with
  | nil => exact hr
  | cons c cs ih => exact ih (disjoint_perform hr c)

theorem run_lookup (hr : r.Disjoint) (cs : List (RegistryCall σ)) :
    Table.run r.lookup cs = ((r.run cs).1.lookup, (r.run cs).2) := by
  induction cs generalizing r with
  | nil => rfl
  | cons c cs ih =>
    have hrest := ih (disjoint_perform hr c)
    unfold Table.run at hrest ⊢
    simp only [RegistryCall.run, perform_lookup hr c, hrest]
    rfl

/-- The stays under a handle are told by the calls on it and their answers. -/
theorem recorded_run {t : Table σ} {h : Handle} {ds : List (Change σ)}
    (ht : Stay.Recorded (t h) ds) (cs : List (RegistryCall σ)) :
    Stay.Recorded ((t.run cs).1 h) (ds ++ RegistryCall.changesUnder h cs (t.run cs).2) := by
  induction cs generalizing t ds with
  | nil => simpa [Table.run, RegistryCall.run, RegistryCall.changesUnder] using ht
  | cons c cs ih =>
    have hstep : Stay.Recorded ((t.perform c).1 h)
        (ds ++ if c.handle = h then (c.change? (t.perform c).2).toList else []) := by
      by_cases hc : c.handle = h
      · subst hc
        simpa [Table.perform] using Stay.recorded_act ht c
      · simpa [Table.perform, hc, Function.update_of_ne (Ne.symm hc)] using ht
    have hrest := ih hstep
    rw [List.append_assoc] at hrest
    exact hrest

end Registry

/-! ### Counts -/

theorem Dict.encard_keys {κ ν : Type} [DecidableEq κ] (t : Dict κ ν) :
    {k | ∃ v, t.find? k = some v}.encard = t.size := by
  have hkeys : {k | ∃ v, t.find? k = some v} = ((t.entries.map Prod.fst).toFinset : Set κ) := by
    ext k
    show (∃ v, t.find? k = some v) ↔ k ∈ (t.entries.map Prod.fst).toFinset
    rw [← Option.isSome_iff_exists, List.mem_toFinset]
    exact lookupIn_isSome k t.entries
  rw [hkeys, Set.encard_coe_eq_coe_finsetCard, List.toFinset_card_of_nodup t.nodup,
    List.length_map]
  rfl

namespace Registry

/-- Any calls on a new registry do to it what they do to the table of its entries, one
map from handles to a bucket and a stream, and are answered the same. The entry under a
handle is what the two dictionaries hold under it, and not both hold anything. Whether a stream
is there and which one is found agree in both scopes, and only `anyState` reaches a
closed one. An insertion fails if and only if one of the dictionaries holds the handle, and
changes nothing then. A removal takes what is there out of both. The numbers of open and of
closed streams are the numbers of handles in the two dictionaries. And what was done
under a handle is a row of stays, each of them an insertion, changes, at most one move to the
closed bucket, and one removal of the stream with these changes made; the last stay
is without its removal if and only if there is an entry, and then it is that entry. -/
theorem calls_refine_one_map (cs : List (RegistryCall σ)) :
    let r := (({} : Registry σ).run cs).1
    let answers := (({} : Registry σ).run cs).2
    Table.run (fun _ => none) cs = (r.lookup, answers) ∧
    (∀ h, (∀ s, r.lookup h = some (.opened, s) ↔ r.opened.find? h = some s) ∧
      (∀ s, r.lookup h = some (.closed, s) ↔ r.closed.find? h = some s) ∧
      (r.opened.find? h = none ∨ r.closed.find? h = none)) ∧
    (∀ h scope, r.contains h scope = (r.find? h scope).isSome ∧
      ∀ s, r.find? h scope = some s ↔
        ∃ b, r.lookup h = some (b, s) ∧ scope.reaches b = true) ∧
    (∀ h s, ((∃ f, r.insert h s = .error f) ↔
        ¬ (r.opened.find? h = none ∧ r.closed.find? h = none)) ∧
      ∀ f, r.insert h s = .error f → r.perform (.insert h s) = (r, .refused f)) ∧
    (∀ h, (r.remove h = none ↔ r.lookup h = none) ∧
      ∀ s r', r.remove h = some (s, r') → (r.lookup h).map Prod.snd = some s ∧
        r'.opened.find? h = none ∧ r'.closed.find? h = none) ∧
    {h | ∃ s, r.opened.find? h = some s}.encard = r.openCount ∧
    {h | ∃ s, r.closed.find? h = some s}.encard = r.closedCount ∧
    ∀ h, Stay.Recorded (r.lookup h) (RegistryCall.changesUnder h cs answers) := by
  intro r answers
  have hr : r.Disjoint := disjoint_run disjoint_empty cs
  have hrun : Table.run (fun _ => none) cs = (r.lookup, answers) := run_lookup disjoint_empty cs
  refine ⟨hrun, fun h => ⟨fun s => lookup_opened, fun s => lookup_closed hr, ?_⟩,
    fun h scope => ⟨contains_eq_isSome r h scope, find?_eq_some r h scope⟩, fun h s => ⟨?_, ?_⟩,
    fun h => ⟨remove_eq_none r h, fun s r' hs => ?_⟩, r.opened.encard_keys, r.closed.encard_keys,
    fun h => ?_⟩
  · by_cases ho : r.opened.find? h = none
    · exact .inl ho
    · exact .inr (hr h ho)
  · rw [insert_fails_iff, ne_eq, lookup_eq_none]
  · intro f hf
    simp only [perform, hf]
  · obtain ⟨hcurrent, hgone⟩ := lookup_remove hr hs
    have hnone := hgone h
    rw [if_pos rfl, lookup_eq_none] at hnone
    exact ⟨hcurrent, hnone⟩
  · have hrecorded := recorded_run (t := fun _ => none) (h := h) Stay.recorded_nothing cs
    rwa [hrun] at hrecorded

end Registry
end HttpExchange
