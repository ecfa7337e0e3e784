/-
# Numbers in header fields

A status, the code of a marker and a count of attempts are texts that may be numerals:
ASCII digits, a sign in front where one is allowed, and white space around them. Each is
read digit by digit after its white space is cut, and reading stops where the
number leaves its range. What is read is what the digits denote, and a text is not read
if it is no numeral or denotes a number out of range (`Text.unsigned_trim_eq_some`,
`Text.signed_trim_eq_some`): the digits behind the place where reading stops could only
make the number greater (`Text.value_le_append`).

Key definitions: `Text.value`, `Text.Digits`, `Text.Padded`, `Text.Numeral`,
`Text.Unsigned`, `Text.Signed`, `Headers.First`.
Key theorems: `Text.extend_eq_some`, `Text.trimChars_of_padded`,
`Text.unsigned_trim_eq_some`, `Text.signed_trim_eq_some`,
`StreamError.number_readCode`, `StreamError.numbers_are_exact`.
-/
import Mathlib.Data.List.TakeWhile
import Mathlib.Data.Nat.Digits.Defs
import HttpExchange.StreamError
import HttpExchange.Proofs.Multimap

namespace HttpExchange
namespace Text

/-! ### Numerals -/

/-- The number that a row of digits denotes in base ten. -/
def value (ds : List Char) : Nat :=
  Nat.ofDigits 10 (ds.reverse.map fun c => c.toNat - '0'.toNat)

/-- One or more ASCII digits that denote `n`, zeros in front allowed. -/
structure Digits (ds : List Char) (n : Nat) : Prop where
  nonempty : ds ≠ []
  digit : ∀ c ∈ ds, c.isDigit = true
  denotes : value ds = n

/-- The sign of a numeral. -/
inductive Sign
  | absent
  | plus
  | minus
  deriving DecidableEq, Repr

/-- How a sign is written. -/
def Sign.chars : Sign → List Char
  | absent => []
  | plus => ['+']
  | minus => ['-']

/-- The number with its sign. -/
def Sign.apply : Sign → Nat → Int
  | absent, n | plus, n => n
  | minus, n => -n

/-- A sign and digits that denote `n`. -/
def Written (cs : List Char) (sign : Sign) (n : Nat) : Prop :=
  ∃ ds, cs = sign.chars ++ ds ∧ Digits ds n

/-- The characters are `core` with nothing but white space before and behind it. -/
def Padded (cs core : List Char) : Prop :=
  ∃ before after, cs = before ++ core ++ after ∧
    (∀ c ∈ before, isBlank c = true) ∧ ∀ c ∈ after, isBlank c = true

/-- The text is a sign and digits with white space around them. -/
def Numeral (s : String) (sign : Sign) (n : Nat) : Prop :=
  ∃ core, Padded s.toList core ∧ Written core sign n

/-- The text denotes `n` and has no minus sign. -/
def Unsigned (s : String) (n : Nat) : Prop := Numeral s .absent n ∨ Numeral s .plus n

/-- The text denotes `z` with whatever sign. -/
def Signed (s : String) (z : Int) : Prop := ∃ sign n, Numeral s sign n ∧ z = sign.apply n

/-! ### Digits -/

theorem digitValue?_eq_some (c : Char) (d : Nat) :
    digitValue? c = some d ↔ c.isDigit = true ∧ d = c.toNat - '0'.toNat := by
  have hrange : ('0' ≤ c ∧ c ≤ '9') ↔ c.isDigit = true := by
    rw [Char.isDigit_iff_toNat]
    exact Iff.rfl
  unfold digitValue?
  by_cases hc : c.isDigit = true
  · rw [if_pos (hrange.mpr hc)]
    simp [hc, eq_comm]
  · rw [if_neg (mt hrange.mp hc)]
    simp [hc]

theorem value_concat (ds : List Char) (c : Char) :
    value (ds ++ [c]) = 10 * value ds + (c.toNat - '0'.toNat) := by
  simp only [value, List.reverse_append, List.reverse_singleton, List.singleton_append,
    List.map_cons, Nat.ofDigits_cons]
  omega

/-- More digits denote no smaller number. -/
theorem value_le_append (ds es : List Char) : value ds ≤ value (ds ++ es) := by
  simp only [value, List.reverse_append, List.map_append, Nat.ofDigits_append]
  calc Nat.ofDigits 10 (ds.reverse.map fun c => c.toNat - '0'.toNat)
      ≤ 10 ^ _ * Nat.ofDigits 10 (ds.reverse.map fun c => c.toNat - '0'.toNat) :=
        Nat.le_mul_of_pos_left _ (by positivity)
    _ ≤ _ := Nat.le_add_left _ _

/-- Behind the digits `ds`, whose value is in range, more are read as what all of them
denote. -/
theorem extend_eq_some {limit : Nat} (ds : List Char) (hds : value ds ≤ limit) (cs : List Char)
    (n : Nat) : extend limit (value ds) cs = some n ↔
      (∀ c ∈ cs, c.isDigit = true) ∧ value (ds ++ cs) = n ∧ n ≤ limit := by
  induction cs generalizing ds with
  | nil =>
    rw [List.append_nil]
    show some (value ds) = some n ↔ _
    constructor
    · intro h
      cases h
      exact ⟨by simp, rfl, hds⟩
    · rintro ⟨-, rfl, -⟩
      rfl
  | cons c cs ih =>
    have hassoc : ds ++ c :: cs = ds ++ [c] ++ cs := by simp
    rw [hassoc, List.forall_mem_cons]
    unfold extend
    cases hd : digitValue? c with
    | none =>
      have hc : ¬ c.isDigit = true := by
        intro hc
        rw [(digitValue?_eq_some c _).mpr ⟨hc, rfl⟩] at hd
        cases hd
      simp [hc]
    | some d =>
      obtain ⟨hc, rfl⟩ := (digitValue?_eq_some c d).mp hd
      dsimp only
      rw [← value_concat]
      by_cases hlimit : value (ds ++ [c]) ≤ limit
      · rw [if_pos hlimit, ih _ hlimit]
        simp [hc]
      · -- reading stops here, and all of the digits denote no less
        rw [if_neg hlimit]
        have hmore := value_le_append (ds ++ [c]) cs
        refine iff_of_false (by simp) ?_
        rintro ⟨-, rfl, hle⟩
        omega

theorem digits_eq_some (limit : Nat) (cs : List Char) (n : Nat) :
    digits limit cs = some n ↔ Digits cs n ∧ n ≤ limit := by
  cases cs with
  | nil =>
    refine iff_of_false (by simp [digits]) ?_
    rintro ⟨hn, -⟩
    exact hn.nonempty rfl
  | cons c cs =>
    have hread := extend_eq_some [] (Nat.zero_le limit) (c :: cs) n
    rw [List.nil_append] at hread
    constructor
    · intro h
      obtain ⟨hdigit, hvalue, hle⟩ := hread.mp h
      exact ⟨⟨by simp, hdigit, hvalue⟩, hle⟩
    · rintro ⟨hn, hle⟩
      exact hread.mpr ⟨hn.digit, hn.denotes, hle⟩

/-! ### Signs -/

variable {cs : List Char} {n : Nat}

theorem written_absent : Written cs .absent n ↔ Digits cs n := by
  simp [Written, Sign.chars]

theorem written_plus : Written cs .plus n ↔ ∃ ds, cs = '+' :: ds ∧ Digits ds n := Iff.rfl

theorem not_digits_cons {c : Char} (hc : c.isDigit = false) : ¬ Digits (c :: cs) n := by
  intro h
  rw [h.digit c List.mem_cons_self] at hc
  cases hc

theorem unsigned_eq_some (limit : Nat) (s : String) (n : Nat) : unsigned limit s = some n ↔
    (Written s.toList .absent n ∨ Written s.toList .plus n) ∧ n ≤ limit := by
  unfold unsigned
  split
  · rename_i cs hcs
    have hsign : ¬ Digits ('+' :: cs) n := not_digits_cons rfl
    simp [digits_eq_some, written_absent, written_plus, hcs, hsign]
  · rename_i hplus
    have hnone : ¬ Written s.toList .plus n := by
      rintro ⟨ds, hds, -⟩
      exact hplus ds hds
    rw [digits_eq_some, written_absent]
    simp [hnone]

/-- What a numeral denotes that begins with a minus sign. -/
theorem denotes_minus {z : Int} :
    (∃ sign n, Written ('-' :: cs) sign n ∧ z = sign.apply n) ↔
      ∃ n : Nat, Digits cs n ∧ z = -n := by
  constructor
  · rintro ⟨sign, n, ⟨ds, hcs, hds⟩, rfl⟩
    cases sign with
    | absent =>
      subst hcs
      exact absurd hds (not_digits_cons rfl)
    | plus => cases hcs
    | minus =>
      cases hcs
      exact ⟨n, hds, rfl⟩
  · rintro ⟨n, hn, rfl⟩
    exact ⟨.minus, n, ⟨cs, rfl, hn⟩, rfl⟩

/-- What any other numeral denotes. -/
theorem denotes_of_no_minus {z : Int} (hminus : ∀ ds, cs ≠ '-' :: ds) :
    (∃ sign n, Written cs sign n ∧ z = sign.apply n) ↔
      ∃ n : Nat, (Written cs .absent n ∨ Written cs .plus n) ∧ z = n := by
  constructor
  · rintro ⟨sign, n, hw, rfl⟩
    cases sign with
    | absent => exact ⟨n, .inl hw, rfl⟩
    | plus => exact ⟨n, .inr hw, rfl⟩
    | minus =>
      obtain ⟨ds, hds, -⟩ := hw
      exact absurd hds (hminus ds)
  · rintro ⟨n, hw | hw, rfl⟩
    · exact ⟨.absent, n, hw, rfl⟩
    · exact ⟨.plus, n, hw, rfl⟩

/-- Behind a minus sign numbers go down to `-least`, and else up to `most`. -/
theorem signed_eq (least most : Nat) (s : String) : signed least most s =
    match s.toList with
    | '-' :: cs => (digits least cs).map fun n : Nat => -(n : Int)
    | _ => (unsigned most s).map Int.ofNat := by
  unfold signed unsigned
  split
  · rename_i cs hcs
    rw [hcs]
    show _ = (digits least cs).map fun n : Nat => -(n : Int)
    cases digits least cs <;> rfl
  · rename_i hcs
    simp [hcs]
  · rename_i hminus hplus
    split
    · rename_i cs hcs
      exact absurd hcs (hminus cs)
    · split
      · rename_i cs hcs
        exact absurd hcs (hplus cs)
      · rfl

theorem signed_eq_some (least most : Nat) (s : String) (z : Int) : signed least most s = some z ↔
    (∃ sign n, Written s.toList sign n ∧ z = sign.apply n) ∧ -least ≤ z ∧ z ≤ most := by
  rw [signed_eq]
  split
  · rename_i cs hcs
    rw [hcs, denotes_minus]
    simp only [Option.map_eq_some_iff, digits_eq_some]
    constructor
    · rintro ⟨n, ⟨hn, hle⟩, rfl⟩
      exact ⟨⟨n, hn, rfl⟩, by omega, by omega⟩
    · rintro ⟨⟨n, hn, rfl⟩, hle, -⟩
      exact ⟨n, ⟨hn, by omega⟩, rfl⟩
  · rename_i hminus
    rw [denotes_of_no_minus hminus]
    simp only [Option.map_eq_some_iff, unsigned_eq_some]
    constructor
    · rintro ⟨n, ⟨hn, hle⟩, rfl⟩
      exact ⟨⟨n, hn, rfl⟩, by simp, Int.ofNat_le.mpr hle⟩
    · rintro ⟨⟨n, hn, rfl⟩, -, hle⟩
      exact ⟨n, ⟨hn, by omega⟩, rfl⟩

/-! ### White space -/

theorem not_blank_of_digit {c : Char} (hc : c.isDigit = true) : isBlank c = false := by
  have hrange : 48 ≤ c.toNat ∧ c.toNat ≤ 57 := Char.isDigit_iff_toNat.mp hc
  rw [← Bool.not_eq_true]
  intro hblank
  simp only [isBlank, inRanges, blankRanges, List.any_cons, List.any_nil, Bool.or_eq_true,
    Bool.and_eq_true, decide_eq_true_eq, Bool.or_false] at hblank
  omega

theorem Sign.not_blank (sign : Sign) : ∀ c ∈ sign.chars, isBlank c = false := by
  intro c hc
  cases sign with
  | absent => cases hc
  | plus | minus =>
    rw [List.mem_singleton.mp hc]
    decide

theorem dropWhile_core {core : List Char} (after : List Char) (hne : core ≠ [])
    (hcore : ∀ c ∈ core, isBlank c = false) :
    (core ++ after).dropWhile isBlank = core ++ after := by
  cases core with
  | nil => exact absurd rfl hne
  | cons c core =>
    rw [List.cons_append, List.dropWhile_cons_of_neg]
    simp [hcore c List.mem_cons_self]

/-- What is in the middle is found by cutting white space, if it has none in it. -/
theorem trimChars_of_padded {cs core : List Char} (hne : core ≠ [])
    (hcore : ∀ c ∈ core, isBlank c = false) (hp : Padded cs core) : trimChars cs = core := by
  obtain ⟨before, after, rfl, hbefore, hafter⟩ := hp
  have hfront : (before ++ core ++ after).dropWhile isBlank = core ++ after := by
    rw [List.append_assoc, List.dropWhile_append_of_pos hbefore, dropWhile_core after hne hcore]
  have hback : (core ++ after).reverse.dropWhile isBlank = core.reverse := by
    rw [List.reverse_append, List.dropWhile_append_of_pos (by simpa using hafter)]
    have hreverse : core.reverse ≠ [] := by simpa using hne
    have hcut := dropWhile_core [] hreverse (by simpa using hcore)
    rwa [List.append_nil] at hcut
  unfold trimChars
  rw [hfront, hback, List.reverse_reverse]

theorem padded_trimChars (cs : List Char) : Padded cs (trimChars cs) := by
  refine ⟨cs.takeWhile isBlank, ((cs.dropWhile isBlank).reverse.takeWhile isBlank).reverse, ?_,
    fun c hc => List.mem_takeWhile_imp hc,
    fun c hc => List.mem_takeWhile_imp (List.mem_reverse.mp hc)⟩
  unfold trimChars
  rw [List.append_assoc, ← List.reverse_append, List.takeWhile_append_dropWhile,
    List.reverse_reverse, List.takeWhile_append_dropWhile]

/-- There is no white space in a numeral. -/
theorem Written.not_blank {cs : List Char} {sign : Sign} {n : Nat} (hw : Written cs sign n) :
    ∀ c ∈ cs, isBlank c = false := by
  obtain ⟨ds, rfl, hds⟩ := hw
  intro c hc
  rcases List.mem_append.mp hc with hc | hc
  · exact sign.not_blank c hc
  · exact not_blank_of_digit (hds.digit c hc)

theorem written_trim (s : String) (sign : Sign) (n : Nat) :
    Written (trim s).toList sign n ↔ Numeral s sign n := by
  unfold trim Numeral
  rw [String.toList_ofList]
  constructor
  · intro hw
    exact ⟨_, padded_trimChars s.toList, hw⟩
  · rintro ⟨core, hp, hw⟩
    have hne : core ≠ [] := by
      obtain ⟨ds, rfl, hds⟩ := hw
      simp [hds.nonempty]
    rwa [trimChars_of_padded hne hw.not_blank hp]

/-- A numeral from its parts. -/
theorem Numeral.of_parts {s : String} {sign : Sign} {n : Nat} (before ds after : List Char)
    (hs : s.toList = before ++ (sign.chars ++ ds) ++ after)
    (hblank : (before ++ after).all isBlank = true) (hdigit : ds.all Char.isDigit = true)
    (hne : ds ≠ []) (hn : value ds = n) : Numeral s sign n := by
  rw [List.all_eq_true, List.forall_mem_append] at hblank
  rw [List.all_eq_true] at hdigit
  exact ⟨_, ⟨before, after, hs, hblank⟩, ds, rfl, hne, hdigit, hn⟩

theorem unsigned_trim_eq_some (limit : Nat) (s : String) (n : Nat) :
    unsigned limit (trim s) = some n ↔ Unsigned s n ∧ n ≤ limit := by
  rw [unsigned_eq_some, written_trim, written_trim]
  rfl

theorem signed_trim_eq_some (least most : Nat) (s : String) (z : Int) :
    signed least most (trim s) = some z ↔ Signed s z ∧ -least ≤ z ∧ z ≤ most := by
  rw [signed_eq_some]
  simp only [written_trim]
  rfl

/-- A text denotes one number at most. -/
theorem Unsigned.unique {s : String} {m n : Nat} (hm : Unsigned s m) (hn : Unsigned s n) :
    m = n := by
  -- with a limit that lets both through, reading gives both
  have hread := (unsigned_trim_eq_some (max m n) s m).mpr ⟨hm, Nat.le_max_left m n⟩
  rw [(unsigned_trim_eq_some (max m n) s n).mpr ⟨hn, Nat.le_max_right m n⟩] at hread
  exact (Option.some.inj hread).symm

end Text

/-! ### Fields -/

namespace Headers

/-- The first field that goes by a name has the value `v`. -/
def First (b : Headers) (name v : String) : Prop :=
  ∃ before n after, b.entries = before ++ (n, v) :: after ∧ Text.Respelled n name ∧
    ∀ e ∈ before, ¬ Text.Respelled e.1 name

variable {b : Headers} {name v : String}

theorem First.get? (hv : b.First name v) : b.get? name = some v := by
  obtain ⟨before, n, after, hentries, hn, hbefore⟩ := hv
  have hfind : b.entries.find? (named name) = some (n, v) := by
    rw [List.find?_eq_some_iff_append]
    refine ⟨named_iff_respelled.mpr hn, before, after, hentries, fun e he => ?_⟩
    rw [Bool.not_eq_true', ← Bool.not_eq_true, named_iff_respelled]
    exact hbefore e he
  unfold Headers.get?
  rw [hfind]
  rfl

theorem get?_of_missing (hn : ∀ e ∈ b.entries, ¬ Text.Respelled e.1 name) :
    b.get? name = none := by
  unfold Headers.get?
  rw [List.find?_eq_none.mpr, Option.map_none]
  intro e he
  rw [named_iff_respelled]
  exact hn e he

end Headers

namespace ErrorCode

theorem number_le (c : ErrorCode) : c.number ≤ 4 := by
  cases c <;> decide

theorem ofNumber?_of_le {n : Nat} (hn : n ≤ 4) : ∃ c : ErrorCode, ofNumber? n = some c ∧
    c.number = n := by
  match n, hn with
  | 0, _ => exact ⟨_, rfl, rfl⟩
  | 1, _ => exact ⟨_, rfl, rfl⟩
  | 2, _ => exact ⟨_, rfl, rfl⟩
  | 3, _ => exact ⟨_, rfl, rfl⟩
  | 4, _ => exact ⟨_, rfl, rfl⟩

end ErrorCode

namespace StreamError

/-- A marker names the kind with the number it denotes, and the undefined one if there is
none. -/
theorem number_readCode (v : String) (n : Nat) : (readCode v).number = n ↔
    (Text.Unsigned v n ∧ n ≤ 4) ∨ (n = 0 ∧ ∀ k ≤ 4, ¬ Text.Unsigned v k) := by
  by_cases hv : ∃ k ≤ 4, Text.Unsigned v k
  · obtain ⟨k, hk, hd⟩ := hv
    obtain ⟨c, hc, hnumber⟩ := ErrorCode.ofNumber?_of_le hk
    have hread : Text.unsigned Text.max32 (Text.trim v) = some k :=
      (Text.unsigned_trim_eq_some _ v k).mpr ⟨hd, hk.trans (by decide)⟩
    have hcode : (readCode v).number = k := by
      unfold readCode
      rw [hread, Option.bind_some, hc]
      exact hnumber
    rw [hcode]
    constructor
    · rintro rfl
      exact .inl ⟨hd, hk⟩
    · rintro (⟨hn, -⟩ | ⟨-, hnone⟩)
      · exact hd.unique hn
      · exact absurd hd (hnone k hk)
  · have hnone : ∀ k ≤ 4, ¬ Text.Unsigned v k := fun k hk hd => hv ⟨k, hk, hd⟩
    have hcode : readCode v = .undefinedError := by
      unfold readCode
      rw [Option.getD_eq_iff]
      refine .inr ⟨?_, rfl⟩
      rw [Option.bind_eq_none_iff]
      intro k hread
      rw [Option.eq_none_iff_forall_ne_some]
      intro c hc
      rw [ErrorCode.ofNumber?_eq_some_iff] at hc
      exact hnone k (hc ▸ c.number_le) ((Text.unsigned_trim_eq_some _ v k).mp hread).1
    rw [hcode]
    constructor
    · rintro rfl
      exact .inr ⟨rfl, hnone⟩
    · rintro (⟨hn, hle⟩ | ⟨rfl, -⟩)
      · exact absurd hn (hnone n hle)
      · rfl

theorem readAttempts_eq (v : String) (z : Int) : readAttempts (some v) = z ↔
    (Text.Signed v z ∧ -2147483648 ≤ z ∧ z ≤ 2147483647) ∨
      (z = -1 ∧ ∀ y, -2147483648 ≤ y → y ≤ 2147483647 → ¬ Text.Signed v y) := by
  have hread (y : Int) : Text.signed32 (Text.trim v) = some y ↔
      Text.Signed v y ∧ -2147483648 ≤ y ∧ y ≤ 2147483647 :=
    Text.signed_trim_eq_some 2147483648 2147483647 v y
  have hnone : Text.signed32 (Text.trim v) = none ↔
      ∀ y, -2147483648 ≤ y → y ≤ 2147483647 → ¬ Text.Signed v y := by
    simp only [Option.eq_none_iff_forall_ne_some, ne_eq, hread]
    exact forall_congr' fun y => by tauto
  show (Text.signed32 (Text.trim v)).getD unknownAttempts = z ↔ _
  rw [Option.getD_eq_iff, hread, hnone]
  show _ ∨ _ ∧ -1 = z ↔ _
  rw [eq_comm (a := -1), and_comm (a := ∀ _, _)]

end StreamError

/-- Take a header block. If its first status is `v`, the block has the status `n` if and
only if `v` without the white space around it is ASCII digits, perhaps behind a plus sign,
that denote `n`, and `n` is at most 65535. If its first marker code is `v`, it stands for an
error. The number of its kind is the one at most 4 that `v` denotes in this way, and 0, that
of the undefined error, if there is none. Its count of attempts is 1 if the
block has no such field. If the first such field is `w`, the count is the number of 32 bits
that `w` denotes, a minus sign allowed, and -1 if there is none. -/
theorem StreamError.numbers_are_exact (b : Headers) :
    (∀ v, b.First Headers.statusName v → ∀ n,
      (b.status? = some n ↔ Text.Unsigned v n ∧ n ≤ 65535)) ∧
    ∀ v, b.First codeName v → ∃ e, ofHeaders? b = some e ∧
      (∀ n, e.code.number = n ↔
        (Text.Unsigned v n ∧ n ≤ 4) ∨ (n = 0 ∧ ∀ k ≤ 4, ¬ Text.Unsigned v k)) ∧
      ((∀ f ∈ b.entries, ¬ Text.Respelled f.1 attemptsName) → e.attempts = 1) ∧
      ∀ w, b.First attemptsName w → ∀ z, (e.attempts = z ↔
        (Text.Signed w z ∧ -2147483648 ≤ z ∧ z ≤ 2147483647) ∨
          (z = -1 ∧ ∀ y, -2147483648 ≤ y → y ≤ 2147483647 → ¬ Text.Signed w y)) := by
  constructor
  · intro v hv n
    unfold Headers.status?
    rw [hv.get?, Option.bind_some]
    exact Text.unsigned_trim_eq_some Text.max16 v n
  · intro v hv
    have he : ofHeaders? b = some
        ⟨readCode v, b.get? messageName, readAttempts (b.get? attemptsName)⟩ := by
      unfold ofHeaders?
      rw [hv.get?]
      rfl
    refine ⟨_, he, fun n => ?_, fun hmissing => ?_, fun w hw z => ?_⟩
    · dsimp only
      exact number_readCode v n
    · show readAttempts (b.get? attemptsName) = 1
      rw [Headers.get?_of_missing hmissing]
      rfl
    · show readAttempts (b.get? attemptsName) = z ↔ _
      rw [hw.get?]
      exact readAttempts_eq w z

/-- A block with the greatest status, the greatest kind and the least count of attempts,
each with zeros in front and white space around it. -/
theorem StreamError.numbers_are_exact_at_bounds :
    let b := Headers.ofList [("X-Envoy-Attempt-Count", " -0002147483648\u2003"),
      (":STATUS", "\u3000+00065535\n"), ("x-internal-error-code", "0004\t"), (":status", "200")]
    b.First Headers.statusName "\u3000+00065535\n" ∧ b.First codeName "0004\t" ∧
      b.First attemptsName " -0002147483648\u2003" ∧ b.status? = some 65535 ∧
      ∃ e, ofHeaders? b = some e ∧ e.code.number = 4 ∧ e.attempts = -2147483648 := by
  intro b
  have hstatus : b.First Headers.statusName "\u3000+00065535\n" :=
    ⟨b.entries.take 1, ":status", b.entries.drop 2, by decide, by decide, by decide⟩
  have hcode : b.First codeName "0004\t" :=
    ⟨b.entries.take 2, "x-internal-error-code", b.entries.drop 3, by decide, by decide, by decide⟩
  have hattempts : b.First attemptsName " -0002147483648\u2003" :=
    ⟨[], "x-envoy-attempt-count", b.entries.drop 1, by decide, by decide, by decide⟩
  have hgreatest : Text.Unsigned "\u3000+00065535\n" 65535 :=
    .inr (.of_parts ['\u3000'] "00065535".toList ['\n'] (by decide) (by decide) (by decide)
      (by decide) (by decide))
  have hfour : Text.Unsigned "0004\t" 4 :=
    .inl (.of_parts [] "0004".toList ['\t'] (by decide) (by decide) (by decide) (by decide)
      (by decide))
  have hleast : Text.Signed " -0002147483648\u2003" (-2147483648) :=
    ⟨.minus, 2147483648, .of_parts [' '] "0002147483648".toList ['\u2003'] (by decide) (by decide)
      (by decide) (by decide) (by decide), rfl⟩
  obtain ⟨hreads, hmarks⟩ := numbers_are_exact b
  obtain ⟨e, he, hkind, -, hcount⟩ := hmarks _ hcode
  exact ⟨hstatus, hcode, hattempts, (hreads _ hstatus 65535).mpr ⟨hgreatest, by decide⟩, e, he,
    (hkind 4).mpr (.inl ⟨hfour, by decide⟩),
    (hcount _ hattempts (-2147483648)).mpr (.inl ⟨hleast, by decide, by decide⟩)⟩

/-- One more is out of range each time, the code also where it is 4 in 32 bits. -/
example : Text.unsigned Text.max16 "65536" = none ∧
    StreamError.readCode "4294967300" = .undefinedError ∧
    StreamError.readAttempts (some "2147483648") = -1 := by decide

end HttpExchange
