/-
# White space

The characters of the `White_Space` property of Unicode, and the text left when
they are cut from both ends. Header fields that hold numbers and the thread name
of a configuration are read through `trim`.
-/

namespace HttpExchange
namespace Text

/-- The first and last code points of each run of the `White_Space` property. -/
def blankRanges : List (Nat × Nat) :=
  [(0x9, 0xd), (0x20, 0x20), (0x85, 0x85), (0xa0, 0xa0), (0x1680, 0x1680), (0x2000, 0x200a),
    (0x2028, 0x2029), (0x202f, 0x202f), (0x205f, 0x205f), (0x3000, 0x3000)]

def inRanges (ranges : List (Nat × Nat)) (n : Nat) : Bool :=
  ranges.any fun r => r.1 ≤ n && n ≤ r.2

/-- White space in the sense of Unicode: 25 characters, six of them in ASCII. -/
def isBlank (c : Char) : Bool := inRanges blankRanges c.toNat

/-- The characters between the first and the last that is not blank. -/
def trimChars (cs : List Char) : List Char :=
  ((cs.dropWhile isBlank).reverse.dropWhile isBlank).reverse

def trim (s : String) : String := String.ofList (trimChars s.toList)

/-- The white space that ASCII-minded code knows is blank here too. -/
theorem isBlank_of_isWhitespace {c : Char} (h : c.isWhitespace = true) : isBlank c = true := by
  simp only [Char.isWhitespace, Bool.or_eq_true, decide_eq_true_eq] at h
  rcases h with ((h | h) | h) | h <;> subst h <;> decide

theorem mem_trimChars {cs : List Char} {c : Char} (h : c ∈ trimChars cs) : c ∈ cs := by
  simp only [trimChars, List.mem_reverse] at h
  exact (List.dropWhile_suffix _).mem (List.mem_reverse.1 ((List.dropWhile_suffix _).mem h))

end Text
end HttpExchange
