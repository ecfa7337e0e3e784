/-
# Decimal numerals with a limit

A numeral is an optional sign and at least one ASCII digit. `unsigned limit`
takes a plus sign only, `signed` takes either; leading zeros do not matter, and
a value past the limit is no numeral at all. Digits are taken one by one, so a
long run of them stops being read as soon as it leaves the range.
-/

namespace HttpExchange
namespace Text

def digitValue? (c : Char) : Option Nat :=
  if '0' ≤ c ∧ c ≤ '9' then some (c.toNat - '0'.toNat) else none

/-- Reads digits onto the value `n` of those before them, staying within `limit`. -/
def extend (limit : Nat) (n : Nat) : List Char → Option Nat
  | [] => some n
  | c :: cs =>
    match digitValue? c with
    | none => none
    | some d => if 10 * n + d ≤ limit then extend limit (10 * n + d) cs else none

/-- One or more digits whose value is at most `limit`. -/
def digits (limit : Nat) : List Char → Option Nat
  | [] => none
  | cs => extend limit 0 cs

/-- An optional plus sign and digits, at most `limit`. -/
def unsigned (limit : Nat) (s : String) : Option Nat :=
  match s.toList with
  | '+' :: cs => digits limit cs
  | cs => digits limit cs

/-- An optional sign and digits, from `-least` to `most`. -/
def signed (least most : Nat) (s : String) : Option Int :=
  match s.toList with
  | '-' :: cs => (digits least cs).map fun n => -(n : Int)
  | '+' :: cs => (digits most cs).map Int.ofNat
  | cs => (digits most cs).map Int.ofNat

def max16 : Nat := 65535

def max32 : Nat := 4294967295

def max64 : Nat := 18446744073709551615

def signed32 (s : String) : Option Int := signed 2147483648 2147483647 s

end Text
end HttpExchange
