/-
# UTF-8

Bytes are read from the front. Where no character can be read, the longest
start of one that stands there counts as a single ill-formed piece. A text is
well formed if it has no such piece; read loosely, each becomes U+FFFD.
-/
import HttpExchange.Handle

namespace HttpExchange
namespace Text
namespace Utf8

def encode (s : String) : Bytes := s.toList.flatMap String.utf8EncodeChar

/-- What a leading byte asks for: its bits of the character, the number of bytes
that follow, and the range of the first of them. -/
def lead? (b : UInt8) : Option (Nat × Nat × Nat × Nat) :=
  let n := b.toNat
  if 0xc2 ≤ n && n ≤ 0xdf then some (n % 32, 1, 0x80, 0xbf)
  else if n = 0xe0 then some (0, 2, 0xa0, 0xbf)
  else if n = 0xed then some (13, 2, 0x80, 0x9f)
  else if 0xe1 ≤ n && n ≤ 0xef then some (n % 16, 2, 0x80, 0xbf)
  else if n = 0xf0 then some (0, 3, 0x90, 0xbf)
  else if 0xf1 ≤ n && n ≤ 0xf3 then some (n % 8, 3, 0x80, 0xbf)
  else if n = 0xf4 then some (4, 3, 0x80, 0x8f)
  else none

/-- Reads up to `more` bytes that follow onto the bits `acc`; the first must lie
between `low` and `high`. Answers the bits if all are there, and what is left. -/
def follow : Nat → Nat → Nat → Nat → Bytes → Option Nat × Bytes
  | 0, _, _, acc, bs => (some acc, bs)
  | _ + 1, _, _, _, [] => (none, [])
  | more + 1, low, high, acc, b :: bs =>
    if low ≤ b.toNat && b.toNat ≤ high then follow more 0x80 0xbf (acc * 64 + b.toNat % 64) bs
    else (none, b :: bs)

theorem length_follow : ∀ (more low high acc : Nat) (bs : Bytes),
    (follow more low high acc bs).2.length ≤ bs.length
  | 0, _, _, _, _ => Nat.le_refl _
  | _ + 1, _, _, _, [] => Nat.le_refl _
  | more + 1, low, high, acc, b :: bs => by
    unfold follow
    split
    · exact Nat.le_succ_of_le (length_follow more _ _ _ bs)
    · exact Nat.le_refl _

/-- The characters and ill-formed pieces, in order, behind those in `done`,
which stand in reverse. -/
def piecesOnto (done : List (Option Char)) : Bytes → List (Option Char)
  | [] => done.reverse
  | b :: bs =>
    if b.toNat < 0x80 then piecesOnto (some (Char.ofNat b.toNat) :: done) bs
    else
      match lead? b with
      | none => piecesOnto (none :: done) bs
      | some (bits, more, low, high) =>
        have := length_follow more low high bits bs
        piecesOnto ((follow more low high bits bs).1.map Char.ofNat :: done)
          (follow more low high bits bs).2
  termination_by bs => bs.length

def pieces (bs : Bytes) : List (Option Char) := piecesOnto [] bs

def decode? (bs : Bytes) : Option String :=
  if (pieces bs).all Option.isSome then some (String.ofList ((pieces bs).filterMap id)) else none

/-- The text with U+FFFD for each ill-formed piece. -/
def decodeLoosely (bs : Bytes) : String :=
  String.ofList ((pieces bs).map fun p => p.getD '\uFFFD')

end Utf8
end Text
end HttpExchange
