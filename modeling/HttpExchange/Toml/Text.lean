/-
# Texts and keys in TOML

A text stands in double quotes, where a backslash escapes, or in single quotes,
where nothing does. Three quotes in a row begin and end a text of several
lines; up to two more may stand before those that end it. An end of line right
behind the opening quotes is dropped, every other one counts as a line feed,
and a backslash before the end of a line swallows all blanks that follow.

Key definitions: `Toml.Reader.text`, `Toml.Reader.keyPath`.
-/
import HttpExchange.Toml.Reader

namespace HttpExchange
namespace Toml

def escaped? : Char → Option Char
  | 'b' => some '\x08'
  | 't' => some '\t'
  | 'n' => some '\n'
  | 'f' => some '\x0c'
  | 'r' => some '\r'
  | '"' => some '"'
  | '\\' => some '\\'
  | _ => none

def hexValue? (c : Char) : Option Nat :=
  if '0' ≤ c && c ≤ '9' then some (c.toNat - '0'.toNat)
  else if 'a' ≤ c && c ≤ 'f' then some (c.toNat - 'a'.toNat + 10)
  else if 'A' ≤ c && c ≤ 'F' then some (c.toNat - 'A'.toNat + 10)
  else none

def scalar? (ds : List Char) : Option Char := do
  let n ← ds.foldlM (fun v d => (hexValue? d).map (16 * v + ·)) 0
  if n.isValidChar then some (Char.ofNat n) else none

/-- An escape, behind its backslash. -/
def escape? : List Char → Option (Char × List Char)
  | 'u' :: cs => if cs.length < 4 then none else (scalar? (cs.take 4)).map fun c => (c, cs.drop 4)
  | 'U' :: cs => if cs.length < 8 then none else (scalar? (cs.take 8)).map fun c => (c, cs.drop 8)
  | c :: cs => (escaped? c).map fun e => (e, cs)
  | [] => none

theorem length_of_escape? {cs rest : List Char} {c : Char} (h : escape? cs = some (c, rest)) :
    rest.length ≤ cs.length := by
  unfold escape? at h
  split at h
  · split at h
    · cases h
    · simp only [Option.map_eq_some_iff, Prod.mk.injEq] at h
      obtain ⟨_, _, _, rfl⟩ := h
      simp; omega
  · split at h
    · cases h
    · simp only [Option.map_eq_some_iff, Prod.mk.injEq] at h
      obtain ⟨_, _, _, rfl⟩ := h
      simp; omega
  · simp only [Option.map_eq_some_iff, Prod.mk.injEq] at h
    obtain ⟨_, _, _, rfl⟩ := h
    simp
  · cases h

/-- A text on one line, behind its opening quote; `done` is what was read, in
reverse. -/
def oneLine (done : List Char) (cs : List Char) : Option (List Char × List Char) :=
  match cs with
  | '"' :: rest => some (done.reverse, rest)
  | '\\' :: rest =>
    match h : escape? rest with
    | some (c, rest') =>
      have := length_of_escape? h
      oneLine (c :: done) rest'
    | none => none
  | c :: rest => if isPlain c then oneLine (c :: done) rest else none
  | [] => none
  termination_by cs.length

/-- A text of several lines, behind its opening quotes. -/
def severalLines (done : List Char) (cs : List Char) : Option (List Char × List Char) :=
  match cs with
  | '"' :: '"' :: '"' :: '"' :: '"' :: rest => some (('"' :: '"' :: done).reverse, rest)
  | '"' :: '"' :: '"' :: '"' :: rest => some (('"' :: done).reverse, rest)
  | '"' :: '"' :: '"' :: rest => some (done.reverse, rest)
  | '\r' :: '\n' :: rest => severalLines ('\n' :: done) rest
  | '\n' :: rest => severalLines ('\n' :: done) rest
  | '\\' :: rest =>
    if Reader.startsLine (rest.dropWhile isSpace) then
      have := Reader.length_afterBlanks (rest.dropWhile isSpace)
      have := (List.dropWhile_suffix isSpace (l := rest)).length_le
      severalLines done (Reader.afterBlanks (rest.dropWhile isSpace))
    else
      match h : escape? rest with
      | some (c, rest') =>
        have := length_of_escape? h
        severalLines (c :: done) rest'
      | none => none
  | c :: rest => if isPlain c then severalLines (c :: done) rest else none
  | [] => none
  termination_by cs.length
  decreasing_by all_goals simp_wf; try omega

/-- A text of several lines without escapes, behind its opening quotes. -/
def severalLiteral (done : List Char) : List Char → Option (List Char × List Char)
  | '\'' :: '\'' :: '\'' :: '\'' :: '\'' :: rest => some (('\'' :: '\'' :: done).reverse, rest)
  | '\'' :: '\'' :: '\'' :: '\'' :: rest => some (('\'' :: done).reverse, rest)
  | '\'' :: '\'' :: '\'' :: rest => some (done.reverse, rest)
  | '\r' :: '\n' :: rest => severalLiteral ('\n' :: done) rest
  | '\n' :: rest => severalLiteral ('\n' :: done) rest
  | c :: rest => if isPlain c then severalLiteral (c :: done) rest else none
  | [] => none

/-- The text without an end of line at its front. -/
def afterLineEnd : List Char → List Char
  | '\n' :: cs => cs
  | '\r' :: '\n' :: cs => cs
  | cs => cs

namespace Reader

/-- A text in double quotes, on one line. -/
def quoted : Reader String := do
  expect '"'
  return String.ofList (← oneLine [])

/-- A text in single quotes, on one line. -/
def literal : Reader String := do
  expect '\''
  let cs ← run fun c => isPlain c && c != '\''
  expect '\''
  return String.ofList cs

/-- A text in any of the four kinds of quotes. -/
def text : Reader String := fun cs =>
  match cs with
  | '"' :: '"' :: '"' :: rest =>
    (severalLines [] (afterLineEnd rest)).map fun (s, rest) => (String.ofList s, rest)
  | '\'' :: '\'' :: '\'' :: rest =>
    (severalLiteral [] (afterLineEnd rest)).map fun (s, rest) => (String.ofList s, rest)
  | '"' :: _ => quoted cs
  | _ => literal cs

def isKeyChar (c : Char) : Bool := c.isAlphanum || c == '_' || c == '-'

def keyPart : Reader String := do
  match ← peek with
  | some '"' => quoted
  | some '\'' => literal
  | _ =>
    let cs ← run isKeyChar
    if cs.isEmpty then failure else pure (String.ofList cs)

/-- Parts of a key with points between, at most `n` of them. -/
def keyParts : Nat → Reader (List String)
  | 0 => failure
  | n + 1 => do
    spaces
    let k ← keyPart
    spaces
    if (← peek) == some '.' then
      skip
      return k :: (← keyParts n)
    else return [k]

/-- The greatest number of parts of a key, and of levels of brackets. -/
def maxDepth : Nat := 79

/-- A key: the parts before the last, and the last. -/
def keyPath : Reader (List String × String) := do
  let ks ← keyParts maxDepth
  match ks.getLast? with
  | some k => pure (ks.dropLast, k)
  | none => failure

end Reader
end Toml
end HttpExchange
