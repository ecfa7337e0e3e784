/-
# Header blocks as ordered multimaps

A header block compares names without the case of ASCII letters. It behaves as an
ordered multimap that compares keys exactly and gets every name in lower case: each
call does to the block what it does to the list of its fields (`Headers.fields`),
and answers the same (`Headers.perform_fields`), so any number of calls do
(`Headers.blocks_refine_multimaps`).

Lower case on the way in and comparison without case on the way out are two
functions of characters. They agree because both see of a name what is the same in
all its spellings, and nothing else (`Text.respelled_iff`).

Key definitions: `HeaderCall`, `Fields.perform`, `Headers.perform`,
`Headers.fields`, `Headers.Stored`, `Text.Respelled`.
Key theorems: `Text.respelled_iff`, `Headers.perform_fields`,
`Headers.untouched_run`, `Headers.blocks_refine_multimaps`.
-/
import Mathlib.Data.List.Forall2
import HttpExchange.Headers

namespace HttpExchange

/-! ### Spellings -/

namespace Text

/-- The same character, or the two cases of one ASCII letter. -/
def SameLetter (a b : Char) : Prop :=
  a = b ∨ (a.isUpper = true ∧ b.toNat = a.toNat + 32) ∨
    (b.isUpper = true ∧ a.toNat = b.toNat + 32)

/-- Two spellings of one name: they differ in the case of ASCII letters only. -/
def Respelled (s t : String) : Prop := List.Forall₂ SameLetter s.toList t.toList

instance : DecidableRel SameLetter := fun a b =>
  inferInstanceAs (Decidable (a = b ∨ (a.isUpper = true ∧ b.toNat = a.toNat + 32) ∨
    (b.isUpper = true ∧ a.toNat = b.toNat + 32)))

instance : DecidableRel Respelled := fun s t =>
  inferInstanceAs (Decidable (List.Forall₂ SameLetter s.toList t.toList))

theorem isUpper_iff (c : Char) : c.isUpper = true ↔ 65 ≤ c.toNat ∧ c.toNat ≤ 90 := by
  show decide (c.val ≥ 'A'.val ∧ c.val ≤ 'Z'.val) = true ↔ 65 ≤ c.val.toNat ∧ c.val.toNat ≤ 90
  rw [decide_eq_true_eq, ge_iff_le, UInt32.le_iff_toNat_le, UInt32.le_iff_toNat_le]
  rfl

theorem toNat_toLower (c : Char) :
    c.toLower.toNat = if c.isUpper = true then c.toNat + 32 else c.toNat := by
  by_cases h : c.isUpper = true
  · have hrange := (isUpper_iff c).mp h
    have hc : c.val ≥ 'A'.val ∧ c.val ≤ 'Z'.val := of_decide_eq_true h
    rw [if_pos h]
    unfold Char.toLower
    rw [dif_pos hc]
    unfold Char.toNat at hrange ⊢
    show (c.val + 32).toNat = c.val.toNat + 32
    rw [UInt32.toNat_add]
    apply Nat.mod_eq_of_lt
    change c.val.toNat + 32 < 2 ^ 32
    omega
  · have hc : ¬ (c.val ≥ 'A'.val ∧ c.val ≤ 'Z'.val) := fun hc => h (decide_eq_true hc)
    rw [if_neg h]
    unfold Char.toLower
    rw [dif_neg hc]

theorem sameLetter_iff (a b : Char) : SameLetter a b ↔ a.toLower = b.toLower := by
  unfold SameLetter
  rw [← Char.toNat_inj (c := a.toLower), toNat_toLower, toNat_toLower, ← Char.toNat_inj (c := a)]
  simp only [isUpper_iff]
  -- the capitals are 26 in a row and the small letters 32 behind, so no sum lands
  -- on a capital again
  by_cases ha : 65 ≤ a.toNat ∧ a.toNat ≤ 90 <;> by_cases hb : 65 ≤ b.toNat ∧ b.toNat ≤ 90
  · rw [if_pos ha, if_pos hb]
    omega
  · rw [if_pos ha, if_neg hb]
    omega
  · rw [if_neg ha, if_pos hb]
    omega
  · rw [if_neg ha, if_neg hb]
    omega

theorem respelled_iff (s t : String) : Respelled s t ↔ lower s = lower t := by
  have hletters : s.toList.map Char.toLower = t.toList.map Char.toLower ↔ Respelled s t := by
    have hsame : SameLetter = fun a b => a.toLower = b.toLower := by
      funext a b
      exact propext (sameLetter_iff a b)
    unfold Respelled
    rw [hsame, ← List.forall₂_eq_eq_eq, List.forall₂_map_left_iff, List.forall₂_map_right_iff]
  rw [← hletters, ← toList_lower, ← toList_lower]
  exact String.toList_inj

/-- The stored spelling is a spelling. -/
theorem lower_lower (s : String) : lower (lower s) = lower s := by
  have hletter (c : Char) : c.toLower.toLower = c.toLower := by
    apply (sameLetter_iff _ _).mp
    unfold SameLetter
    by_cases hc : c.isUpper = true
    · exact .inr (.inr ⟨hc, by rw [toNat_toLower, if_pos hc]⟩)
    · exact .inl (Char.toNat_inj.mp (by rw [toNat_toLower, if_neg hc]))
  unfold lower
  rw [String.toList_ofList, List.map_map]
  apply congrArg String.ofList
  apply List.map_congr_left
  intro c _
  exact hletter c

end Text

/-! ### The calls -/

/-- A call on a header block. -/
inductive HeaderCall
  | add (name value : String)
  | set (name value : String)
  | remove (name : String)
  | get (name : String)
  | getAll (name : String)
  | contains (name : String)
  deriving DecidableEq, Repr

/-- What a call answers. -/
inductive HeaderAnswer
  | nothing
  | removed (count : Nat)
  | value (v : Option String)
  | values (vs : List String)
  | flag (b : Bool)
  deriving DecidableEq, Repr

namespace HeaderCall

/-- The call changes what is under a name. -/
def writes : HeaderCall → String → Bool
  | add n _, k | set n _, k | remove n, k => decide (Text.Respelled k n)
  | get _, _ | getAll _, _ | contains _, _ => false

/-- The same call with its name in another spelling. -/
inductive Respelled : HeaderCall → HeaderCall → Prop
  | add {n m : String} (v : String) : Text.Respelled n m → Respelled (add n v) (add m v)
  | set {n m : String} (v : String) : Text.Respelled n m → Respelled (set n v) (set m v)
  | remove {n m : String} : Text.Respelled n m → Respelled (remove n) (remove m)
  | get {n m : String} : Text.Respelled n m → Respelled (get n) (get m)
  | getAll {n m : String} : Text.Respelled n m → Respelled (getAll n) (getAll m)
  | contains {n m : String} : Text.Respelled n m → Respelled (contains n) (contains m)

section Run

variable {σ τ : Type}

/-- Calls one after the other, and what they answer. -/
def run (perform : σ → HeaderCall → σ × HeaderAnswer) (s : σ) :
    List HeaderCall → σ × List HeaderAnswer
  | [] => (s, [])
  | c :: cs =>
    let r := run perform (perform s c).1 cs
    (r.1, (perform s c).2 :: r.2)

/-- What is seen of one thing behaves as another if it does so call by call. -/
theorem run_view {f : σ → HeaderCall → σ × HeaderAnswer} {g : τ → HeaderCall → τ × HeaderAnswer}
    {view : σ → τ} (h : ∀ s c, g (view s) c = (view (f s c).1, (f s c).2)) (s : σ)
    (cs : List HeaderCall) : run g (view s) cs = (view (run f s cs).1, (run f s cs).2) := by
  induction cs generalizing s with
  | nil => rfl
  | cons c cs ih =>
    simp only [run, h]
    rw [ih]

/-- What every call keeps is kept by any number of them. -/
theorem run_kept {f : σ → HeaderCall → σ × HeaderAnswer} {P : σ → Prop} {cs : List HeaderCall}
    (h : ∀ s, ∀ c ∈ cs, P s → P (f s c).1) {s : σ} (hs : P s) : P (run f s cs).1 := by
  induction cs generalizing s with
  | nil => exact hs
  | cons c cs ih =>
    apply ih
    · intro s d hd
      exact h s d (List.mem_cons_of_mem c hd)
    · exact h s c List.mem_cons_self hs

end Run

end HeaderCall

/-! ### The ordered multimap -/

/-- Keys and values in order; a key may occur several times. -/
abbrev Fields := List (String × String)

namespace Fields

/-- The values under a key, in order. -/
def values (l : Fields) (k : String) : List String := (l.filter fun e => e.1 = k).map (·.2)

/-- The fields under other keys. -/
def without (l : Fields) (k : String) : Fields := l.filter fun e => e.1 ≠ k

/-- A call on an ordered multimap, the name in lower case being the key. -/
def perform (l : Fields) : HeaderCall → Fields × HeaderAnswer
  | .add n v => (l ++ [(Text.lower n, v)], .nothing)
  | .set n v => (l.without (Text.lower n) ++ [(Text.lower n, v)], .nothing)
  | .remove n => (l.without (Text.lower n), .removed (l.values (Text.lower n)).length)
  | .get n => (l, .value (l.values (Text.lower n)).head?)
  | .getAll n => (l, .values (l.values (Text.lower n)))
  | .contains n => (l, .flag (l.values (Text.lower n) ≠ []))

/-- Calls one after the other, and what they answer. -/
def run (l : Fields) (cs : List HeaderCall) : Fields × List HeaderAnswer :=
  HeaderCall.run perform l cs

end Fields

namespace Headers

/-- A call on a header block. -/
def perform (b : Headers) : HeaderCall → Headers × HeaderAnswer
  | .add n v => (b.add n v, .nothing)
  | .set n v => (b.set n v, .nothing)
  | .remove n => (b.remove n, .removed (b.count n))
  | .get n => (b, .value (b.get? n))
  | .getAll n => (b, .values (b.getAll n))
  | .contains n => (b, .flag (b.contains n))

/-- Calls one after the other, and what they answer. -/
def run (b : Headers) (cs : List HeaderCall) : Headers × List HeaderAnswer :=
  HeaderCall.run perform b cs

/-- The fields of a block under their names in lower case. -/
def fields (b : Headers) : Fields := b.entries.map fun e => (Text.lower e.1, e.2)

/-- Every name of the block is in lower case. -/
def Stored (b : Headers) : Prop := ∀ e ∈ b.entries, Text.lower e.1 = e.1

/-! ### Lookups -/

variable (b : Headers)

theorem named_iff {n : String} {e : String × String} :
    named n e = true ↔ Text.lower e.1 = Text.lower n := Text.alike_iff e.1 n

theorem named_iff_respelled {n : String} {e : String × String} :
    named n e = true ↔ Text.Respelled e.1 n := by
  rw [named_iff, Text.respelled_iff]

theorem named_lower (n : String) : named (Text.lower n) = named n := by
  funext e
  rw [Bool.eq_iff_iff, named_iff, named_iff, Text.lower_lower]

theorem get?_eq_head? (n : String) : b.get? n = (b.getAll n).head? := by
  unfold get? getAll
  rw [List.head?_map, List.head?_filter]

theorem contains_iff (n : String) : b.contains n = true ↔ b.getAll n ≠ [] := by
  unfold contains
  rw [get?_eq_head?, List.isSome_head?]

theorem count_eq_length (n : String) : b.count n = (b.getAll n).length := by
  unfold count getAll
  rw [List.countP_eq_length_filter, List.length_map]

theorem values_fields (n : String) : b.fields.values (Text.lower n) = b.getAll n := by
  unfold Fields.values fields getAll
  rw [List.filter_map, List.map_map]
  apply congrArg (List.map _)
  apply List.filter_congr
  intro e _
  rw [Bool.eq_iff_iff, named_iff]
  simp

theorem without_fields (n : String) : b.fields.without (Text.lower n) = (b.remove n).fields := by
  unfold Fields.without fields
  rw [List.filter_map, entries_remove]
  apply congrArg (List.map _)
  apply List.filter_congr
  intro e _
  rw [Bool.eq_iff_iff, Bool.not_eq_true', ← Bool.not_eq_true, named_iff]
  simp

/-! ### One call -/

theorem fields_set (n v : String) :
    (b.set n v).fields = b.fields.without (Text.lower n) ++ [(Text.lower n, v)] := by
  rw [without_fields]
  unfold fields
  rw [entries_set, entries_remove, entries_remove, named_lower, List.map_append, List.map_singleton,
    Text.lower_lower]

theorem fields_add (n v : String) : (b.add n v).fields = b.fields ++ [(Text.lower n, v)] := by
  unfold fields
  rw [entries_add, List.map_append, List.map_singleton, Text.lower_lower]

/-- A call does to a block what it does to the list of its fields. -/
theorem perform_fields (c : HeaderCall) :
    Fields.perform b.fields c = ((b.perform c).1.fields, (b.perform c).2) := by
  cases c with
  | add n v => simp only [Fields.perform, perform, fields_add]
  | set n v => simp only [Fields.perform, perform, fields_set]
  | remove n => simp only [Fields.perform, perform, without_fields, values_fields, count_eq_length]
  | get n => simp only [Fields.perform, perform, values_fields, get?_eq_head?]
  | getAll n => simp only [Fields.perform, perform, values_fields]
  | contains n =>
    have hflag : decide (b.getAll n ≠ []) = b.contains n := by
      rw [Bool.eq_iff_iff, decide_eq_true_eq, contains_iff]
    simp only [Fields.perform, perform, values_fields, hflag]

variable {b}

theorem Stored.fields_eq (hb : b.Stored) : b.fields = b.entries := by
  unfold fields
  conv_rhs => rw [← List.map_id b.entries]
  apply List.map_congr_left
  intro e he
  show (Text.lower e.1, e.2) = e
  rw [hb e he]

theorem Stored.append (hb : b.Stored) (n v : String) :
    Stored ⟨b.entries ++ [(Text.lower n, v)]⟩ := by
  intro e he
  rcases List.mem_append.mp he with he | he
  · exact hb e he
  · rw [List.mem_singleton.mp he]
    exact Text.lower_lower n

theorem Stored.remove (hb : b.Stored) (n : String) : (b.remove n).Stored :=
  fun e he => hb e (List.mem_filter.mp he).1

/-- Names are in lower case however a block was made. -/
theorem Stored.perform (hb : b.Stored) (c : HeaderCall) : (b.perform c).1.Stored := by
  cases c with
  | add n v => exact hb.append n v
  | set n v => exact (hb.remove (Text.lower n)).append n v
  | remove n => exact hb.remove n
  | get n | getAll n | contains n => exact hb

theorem stored_ofList (l : List (String × String)) : (ofList l).Stored := by
  have hfold (b : Headers) (hb : b.Stored) : (l.foldl (fun b f => b.add f.1 f.2) b).Stored := by
    induction l generalizing b with
    | nil => exact hb
    | cons f l ih => exact ih _ (hb.append f.1 f.2)
  exact hfold {} (fun e he => by cases he)

/-- A call leaves the fields under other names where they are. -/
theorem untouched_perform {c : HeaderCall} {q : String × String → Bool}
    (hq : ∀ e, q e = true → c.writes e.1 = false) (b : Headers) :
    (b.perform c).1.entries.filter q = b.entries.filter q := by
  have hremove {n : String} (hn : ∀ e, q e = true → decide (Text.Respelled e.1 n) = false)
      (b : Headers) : (b.remove n).entries.filter q = b.entries.filter q := by
    rw [entries_remove, List.filter_filter]
    apply List.filter_congr
    intro e _
    by_cases he : q e = true
    · have hapart := of_decide_eq_false (hn e he)
      rw [← named_iff_respelled, Bool.not_eq_true] at hapart
      rw [he, hapart]
      rfl
    · rw [Bool.not_eq_true] at he
      rw [he, Bool.false_and]
  have happend {n : String} (v : String)
      (hn : ∀ e, q e = true → decide (Text.Respelled e.1 n) = false)
      (l : List (String × String)) : (l ++ [(Text.lower n, v)]).filter q = l.filter q := by
    have hnew : q (Text.lower n, v) = false := by
      by_contra h
      apply of_decide_eq_false (hn _ ((Bool.not_eq_false _).mp h))
      exact (Text.respelled_iff _ _).mpr (Text.lower_lower n)
    rw [List.filter_append, List.filter_singleton, hnew]
    simp
  cases c with
  | add n v => exact happend v hq b.entries
  | set n v =>
    have hlower : b.remove (Text.lower n) = b.remove n := by
      unfold Headers.remove
      rw [named_lower]
    show (b.set n v).entries.filter q = _
    rw [entries_set, hlower, happend v hq, hremove hq]
  | remove n => exact hremove hq b
  | get n | getAll n | contains n => rfl

/-- A call with its name in another spelling is the same call. -/
theorem perform_respelled {c d : HeaderCall} (h : c.Respelled d) (b : Headers) :
    b.perform d = b.perform c := by
  have hnamed {n m : String} (hn : Text.Respelled n m) : named m = named n := by
    funext e
    rw [Bool.eq_iff_iff, named_iff, named_iff, (Text.respelled_iff n m).mp hn]
  have hlower {n m : String} (hn : Text.Respelled n m) : Text.lower m = Text.lower n :=
    ((Text.respelled_iff n m).mp hn).symm
  cases h with
  | add v hn => simp only [Headers.perform, Headers.add, hlower hn]
  | set v hn => simp only [Headers.perform, Headers.set, hlower hn]
  | remove hn => simp only [Headers.perform, Headers.remove, count, hnamed hn]
  | get hn => simp only [Headers.perform, get?, hnamed hn]
  | getAll hn => simp only [Headers.perform, getAll, hnamed hn]
  | contains hn => simp only [Headers.perform, Headers.contains, get?, hnamed hn]

/-! ### Any number of calls -/

/-- Fields under names that no call writes stay as they are and in their order. -/
theorem untouched_run (b : Headers) (cs : List HeaderCall) :
    (b.run cs).1.entries.filter (fun e => cs.all fun c => !c.writes e.1) =
      b.entries.filter (fun e => cs.all fun c => !c.writes e.1) := by
  apply HeaderCall.run_kept (P := fun d : Headers => d.entries.filter _ = b.entries.filter _)
  · intro d c hc hd
    rw [← hd]
    apply untouched_perform
    intro e he
    simpa using List.all_eq_true.mp he c hc
  · rfl

theorem run_respelled {cs ds : List HeaderCall} (h : List.Forall₂ HeaderCall.Respelled cs ds)
    (b : Headers) : b.run ds = b.run cs := by
  induction h generalizing b with
  | nil => rfl
  | cons hc _ ih =>
    unfold run at ih ⊢
    simp only [HeaderCall.run, perform_respelled hc, ih]

/-- Any calls on any block do what they do to the ordered multimap of its fields
under their names in lower case, and are answered the same; where the names are
stored in lower case, as they are in every block made by these calls, the block is
that multimap. The first value under a name is the first of all its values, and it
is there exactly if there are any; all values under a name are those of the fields
whose name is a spelling of it, in their order. Fields under names that no call writes stay
as they are and in their order. And no spelling of a name in a call makes a
difference to the block or to any answer. -/
theorem blocks_refine_multimaps (b : Headers) (cs : List HeaderCall) :
    let r := b.run cs
    Fields.run b.fields cs = (r.1.fields, r.2) ∧
    (b.Stored → r.1.Stored ∧ r.1.entries = (Fields.run b.entries cs).1) ∧
    (∀ n, r.1.get? n = (r.1.getAll n).head? ∧
      (r.1.contains n = true ↔ r.1.getAll n ≠ []) ∧
      r.1.getAll n = (r.1.entries.filter fun e => Text.Respelled e.1 n).map (·.2)) ∧
    (r.1.entries.filter fun e => cs.all fun c => !c.writes e.1) =
      (b.entries.filter fun e => cs.all fun c => !c.writes e.1) ∧
    ∀ ds, List.Forall₂ HeaderCall.Respelled cs ds → b.run ds = r := by
  intro r
  have hrun : Fields.run b.fields cs = (r.1.fields, r.2) :=
    HeaderCall.run_view perform_fields b cs
  refine ⟨hrun, fun hb => ?_, fun n => ⟨r.1.get?_eq_head? n, r.1.contains_iff n, ?_⟩,
    b.untouched_run cs, fun ds hds => run_respelled hds b⟩
  · have hr : r.1.Stored := HeaderCall.run_kept (fun _ c _ hs => hs.perform c) hb
    refine ⟨hr, ?_⟩
    rw [← hb.fields_eq, hrun, hr.fields_eq]
  · unfold getAll
    apply congrArg (List.map _)
    apply List.filter_congr
    intro e _
    rw [Bool.eq_iff_iff, named_iff_respelled, decide_eq_true_eq]

/-- Two values under one name in two spellings are counted, replaced and found
under a third; the field between them stays. -/
theorem blocks_refine_multimaps_spelled :
    let b := ofList [("X-Tag", "1"), ("via", "é"), ("x-tag", "2")]
    let cs := [HeaderCall.getAll "x-TAG", .set "X-tag" "3", .add "Via" "ü", .remove "x-tag"]
    let ds := [HeaderCall.getAll "X-Tag", .set "x-tag" "3", .add "VIA" "ü", .remove "X-TAG"]
    b.Stored ∧ List.Forall₂ HeaderCall.Respelled cs ds ∧ b.run ds = b.run cs ∧
      (b.run cs).1.entries = [("via", "é"), ("via", "ü")] ∧
      (b.run cs).2 = [.values ["1", "2"], .nothing, .nothing, .removed 1] ∧
      (Fields.run b.entries cs).1 = [("via", "é"), ("via", "ü")] := by
  intro b cs ds
  have hb : b.Stored := stored_ofList _
  have hspelled : List.Forall₂ HeaderCall.Respelled cs ds := by
    have spelled {n m : String} (h : Text.lower n = Text.lower m) : Text.Respelled n m :=
      (Text.respelled_iff n m).mpr h
    exact .cons (.getAll (spelled (by decide))) (.cons (.set "3" (spelled (by decide)))
      (.cons (.add "ü" (spelled (by decide))) (.cons (.remove (spelled (by decide))) .nil)))
  obtain ⟨-, hstored, -, -, hrespelled⟩ := blocks_refine_multimaps b cs
  have hentries : (b.run cs).1.entries = [("via", "é"), ("via", "ü")] := by decide
  exact ⟨hb, hspelled, hrespelled ds hspelled, hentries, by decide,
    (hstored hb).2.symm.trans hentries⟩

end Headers
end HttpExchange
