/-
# Numbers and dates in TOML

Integers are signed and have 64 bits; they are written in decimal with an
optional sign, or without one in hexadecimal, octal or binary behind `0x`, `0o`
and `0b`. An underscore may stand between two digits, and a decimal numeral of
several digits does not start with zero. A float that rounds to positive
infinity is refused. A date is a day, with or without a time and an offset, or
a time alone.

Key definitions: `Toml.Reader.number`, `Toml.Reader.numberOrDate`,
`Toml.overflows`.
-/
import HttpExchange.Toml.Item
import HttpExchange.Toml.Text

namespace HttpExchange
namespace Toml

/-- Digits that pass a test, with single underscores between them. The second
argument says whether a digit must come next. -/
def digitRun (p : Char → Bool) : Bool → List Char → Option (List Char × List Char)
  | needed, '_' :: cs => if needed then none else digitRun p true cs
  | needed, c :: cs =>
    if p c then (digitRun p false cs).map fun (ds, rest) => (c :: ds, rest)
    else if needed then none else some ([], c :: cs)
  | needed, [] => if needed then none else some ([], [])

def valueOf (base : Nat) (ds : List Char) : Nat :=
  ds.foldl (fun v d => base * v + (hexValue? d).getD 0) 0

/-- Whether `n · 10 ^ k` rounds to infinity as a binary float of 64 bits: it is
at least half a unit above the greatest finite one. -/
def overflows (n : Nat) (k : Int) : Bool :=
  let bound := (Nat.pow 2 54 - 1) * Nat.pow 2 970
  let places : Int := (toString n).length + k
  if n = 0 || places < 300 then false
  else if 400 < places then true
  else if 0 ≤ k then bound ≤ n * Nat.pow 10 k.toNat
  else bound * Nat.pow 10 (-k).toNat ≤ n

def validDay (year month day : Nat) : Bool :=
  let leap := year % 4 = 0 && (year % 100 ≠ 0 || year % 400 = 0)
  let most :=
    if month = 2 then (if leap then 29 else 28)
    else if month = 4 || month = 6 || month = 9 || month = 11 then 30
    else 31
  1 ≤ day && day ≤ most

namespace Reader

/-- An optional sign; whether it is a minus. -/
def sign : Reader Bool := do
  match ← peek with
  | some '-' => skip; return true
  | some '+' => skip; return false
  | _ => return false

def anyDigits : Reader (List Char) := digitRun isDigit true

/-- A decimal numeral: a single digit, or several that do not start with zero. -/
def decimal : Reader (List Char) := do
  match ← peek with
  | some '0' => skip; return ['0']
  | _ => anyDigits

def exponent? : Reader (Option Int) := do
  match ← peek with
  | some 'e' | some 'E' =>
    skip
    let minus ← sign
    let n : Int := valueOf 10 (← anyDigits)
    return some (if minus then -n else n)
  | _ => return none

def fraction? : Reader (Option (List Char)) := do
  if (← peek) == some '.' then
    skip
    return some (← anyDigits)
  else return none

/-- An integer of at most 64 bits. -/
def fitting (n : Int) : Reader Item :=
  if -9223372036854775808 ≤ n && n ≤ 9223372036854775807 then pure (.integer n) else failure

/-- An integer in another base, behind its two-character mark. -/
def based (base : Nat) (p : Char → Bool) : Reader Item := do
  skip
  skip
  let ds ← digitRun p true
  fitting (valueOf base ds)

/-- A number in decimal notation, or one of the names for special floats. -/
def signedNumber : Reader Item := do
  let minus ← sign
  match ← peek with
  | some 'i' => word ['i', 'n', 'f']; return .float
  | some 'n' => word ['n', 'a', 'n']; return .float
  | _ =>
    let ds ← decimal
    let fraction ← fraction?
    let exponent ← exponent?
    if fraction.isNone && exponent.isNone then
      let n : Int := valueOf 10 ds
      fitting (if minus then -n else n)
    else
      let fs := fraction.getD []
      let k := exponent.getD 0 - fs.length
      if !minus && overflows (valueOf 10 (ds ++ fs)) k then failure else return .float

def number : Reader Item := do
  match ← peekTwo with
  | ['0', 'x'] => based 16 fun c => (hexValue? c).isSome
  | ['0', 'o'] => based 8 fun c => '0' ≤ c && c ≤ '7'
  | ['0', 'b'] => based 2 fun c => c == '0' || c == '1'
  | _ => signedNumber

/-- Whether a time of day starts here: an hour and a colon. -/
def timeAhead : List Char → Bool
  | a :: b :: ':' :: _ => isDigit a && isDigit b && valueOf 10 [a, b] ≤ 23
  | _ => false

/-- Whether a date starts here: a year and a hyphen. -/
def dateAhead : List Char → Bool
  | a :: b :: c :: d :: '-' :: _ => [a, b, c, d].all isDigit
  | _ => false

/-- A time of day: hour, minute, second, and a fraction of a second. -/
def time : Reader Unit := do
  let _ ← digitsBetween 2 0 23
  expect ':'
  let _ ← digitsBetween 2 0 59
  expect ':'
  let _ ← digitsBetween 2 0 60
  let cs ← get
  match cs with
  | '.' :: d :: _ =>
    if isDigit d then
      skip
      let _ ← run isDigit
  | _ => pure ()

/-- An offset from universal time, if there is one. -/
def offset : Reader Unit := do
  match ← peek with
  | some 'Z' | some 'z' => skip
  | some '+' | some '-' =>
    skip
    let _ ← digitsBetween 2 0 23
    expect ':'
    let _ ← digitsBetween 2 0 59
  | _ => pure ()

def date : Reader Unit := do
  let year ← digits 4
  expect '-'
  let month ← digitsBetween 2 1 12
  expect '-'
  let day ← digitsBetween 2 1 31
  if validDay year month day then
    let cs ← get
    match cs with
    | c :: rest =>
      if (c == 'T' || c == 't' || c == ' ') && timeAhead rest then
        skip
        time
        offset
    | [] => pure ()
  else failure

def numberOrDate : Reader Item := do
  let cs ← get
  if dateAhead cs then
    date
    return .dateTime
  else if timeAhead cs then
    time
    return .dateTime
  else number

end Reader
end Toml
end HttpExchange
