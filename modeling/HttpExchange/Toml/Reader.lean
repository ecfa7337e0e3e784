/-
# Reading characters

A reader takes characters off the front of a text, or fails. White space is
blank or tab, a line ends in a line feed with or without a carriage return, and
control characters other than tab stand nowhere.
-/

namespace HttpExchange
namespace Toml

/-- Takes something off the front of a text. -/
abbrev Reader := StateT (List Char) Option

def isSpace (c : Char) : Bool := c == ' ' || c == '\t'

/-- Anything a comment may hold: no control character but the tab. -/
def isPlain (c : Char) : Bool := c == '\t' || (' ' ≤ c && c != '\x7f')

def isDigit (c : Char) : Bool := '0' ≤ c && c ≤ '9'

namespace Reader

/-- The next character, which stays. -/
def peek : Reader (Option Char) := fun cs => some (cs.head?, cs)

def peekTwo : Reader (List Char) := fun cs => some (cs.take 2, cs)

def skip : Reader Unit := fun cs => some ((), cs.drop 1)

def expect (c : Char) : Reader Unit
  | d :: cs => if d = c then some ((), cs) else none
  | [] => none

def word : List Char → Reader Unit
  | [] => pure ()
  | c :: cs => do expect c; word cs

/-- Takes off the longest run of characters that pass a test. -/
def run (p : Char → Bool) : Reader (List Char) := fun cs => some (cs.takeWhile p, cs.dropWhile p)

/-- Takes off exactly `n` digits. -/
def digits (n : Nat) : Reader Nat := fun cs =>
  let ds := cs.take n
  if ds.length = n && ds.all isDigit then
    some (ds.foldl (fun v d => 10 * v + (d.toNat - '0'.toNat)) 0, cs.drop n)
  else none

/-- Takes off `n` digits whose value lies between two bounds. -/
def digitsBetween (n low high : Nat) : Reader Nat := do
  let v ← digits n
  if low ≤ v && v ≤ high then pure v else failure

def spaces : Reader Unit := do let _ ← run isSpace

def newline : Reader Unit
  | '\n' :: cs => some ((), cs)
  | '\r' :: '\n' :: cs => some ((), cs)
  | _ => none

def comment : Reader Unit := do
  if (← peek) == some '#' then
    let _ ← run isPlain

/-- Takes off what may follow on a line, and its end or that of the text. -/
def lineEnd : Reader Unit := do
  spaces
  comment
  match ← peek with
  | none => pure ()
  | some _ => newline

def startsLine : List Char → Bool
  | '\n' :: _ => true
  | '\r' :: '\n' :: _ => true
  | _ => false

/-- What is left of a text behind white space and ends of lines. -/
def afterBlanks : List Char → List Char
  | ' ' :: cs => afterBlanks cs
  | '\t' :: cs => afterBlanks cs
  | '\n' :: cs => afterBlanks cs
  | '\r' :: '\n' :: cs => afterBlanks cs
  | cs => cs

theorem length_afterBlanks (cs : List Char) : (afterBlanks cs).length ≤ cs.length := by
  fun_induction afterBlanks cs <;> simp_all <;> omega

/-- What is left of a text behind white space, ends of lines and comments. -/
def afterGap (cs : List Char) : List Char :=
  match h : afterBlanks cs with
  | '#' :: rest =>
    have h₁ := length_afterBlanks cs
    have h₂ := (List.dropWhile_suffix isPlain (l := rest)).length_le
    have : (rest.dropWhile isPlain).length < cs.length := by
      rw [h, List.length_cons] at h₁; omega
    afterGap (rest.dropWhile isPlain)
  | rest => rest
  termination_by cs.length

/-- Takes off white space, ends of lines and comments. -/
def gap : Reader Unit := fun cs => some ((), afterGap cs)

end Reader
end Toml
end HttpExchange
