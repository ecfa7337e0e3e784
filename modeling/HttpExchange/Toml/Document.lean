/-
# TOML documents

A document is a list of lines: key and value, a header in brackets, a header in
double brackets, or nothing; each may end in a comment. It is read into one
table. Only brackets nest, and not deeper than `Reader.maxDepth`.

Key definitions: `Toml.Reader.value`, `Toml.parse?`.
-/
import HttpExchange.Toml.Number

namespace HttpExchange
namespace Toml
namespace Reader

/-- Elements of an array and its closing bracket, behind the opening one. A comma
may follow the last element. `fuel` bounds the number of elements. -/
def elements (value : Reader Item) : Nat → Reader (List Item)
  | 0 => failure
  | fuel + 1 => do
    gap
    if (← peek) == some ']' then
      skip
      return []
    else
      let v ← value
      gap
      match ← peek with
      | some ',' =>
        skip
        return v :: (← elements value fuel)
      | _ =>
        expect ']'
        return [v]

def entry (value : Reader Item) (t : Table) : Reader Table := do
  let (path, k) ← keyPath
  expect '='
  spaces
  let v ← value
  t.put v k path

/-- Entries of a table in braces and its closing brace. `fuel` bounds their
number. -/
def inlineEntries (value : Reader Item) : Nat → Table → Reader Table
  | 0, _ => failure
  | fuel + 1, t => do
    let t ← entry value t
    spaces
    match ← peek with
    | some ',' =>
      skip
      inlineEntries value fuel t
    | _ =>
      expect '\x7d'
      return t

def inlineTable (value : Reader Item) (fuel : Nat) : Reader Item := do
  spaces
  if (← peek) == some '\x7d' then
    skip
    return .table (.empty .inline)
  else
    return .table (← inlineEntries value fuel (.empty .inline))

/-- A value without brackets. -/
def scalar : Reader Item := do
  match ← peek with
  | some '"' | some '\'' => return .text (← text)
  | some 't' => word ['t', 'r', 'u', 'e']; return .boolean true
  | some 'f' => word ['f', 'a', 'l', 's', 'e']; return .boolean false
  | some 'i' => word ['i', 'n', 'f']; return .float
  | some 'n' => word ['n', 'a', 'n']; return .float
  | some c => if isDigit c || c == '+' || c == '-' then numberOrDate else failure
  | none => failure

/-- A value with at most `depth` levels of brackets. -/
def value : Nat → Reader Item
  | 0 => scalar
  | depth + 1 => do
    match ← peek with
    | some '[' =>
      skip
      let cs ← get
      return .array (← elements (value depth) (cs.length + 1))
    | some '\x7b' =>
      skip
      let cs ← get
      inlineTable (value depth) (cs.length + 1)
    | _ => scalar

/-- A header, behind its brackets: whether it is double, and its key. -/
def header : Reader (Bool × List String × String) := do
  skip
  let double := (← peek) == some '['
  if double then skip
  let (path, k) ← keyPath
  expect ']'
  if double then expect ']'
  lineEnd
  return (double, path, k)

end Reader

/-- What has been read: the table of the document, and the path of the last
header. -/
structure Draft where
  root : Table := .empty .header
  path : List String := []

/-- Takes up the next line, if it is not blank. -/
def Draft.line (d : Draft) : Reader Draft := do
  match ← Reader.peek with
  | some '#' =>
    Reader.lineEnd
    return d
  | some '[' =>
    let (double, path, k) ← Reader.header
    let root ← d.root.within (if double then Table.openElement k else Table.openHeader k) path
    return { root := root, path := path ++ [k] }
  | some '\n' | some '\r' =>
    Reader.newline
    return d
  | _ =>
    let (path, k) ← Reader.keyPath
    Reader.expect '='
    Reader.spaces
    let v ← Reader.value Reader.maxDepth
    Reader.lineEnd
    let root ← d.root.within (fun t => t.put v k path) d.path
    return { d with root := root }

/-- Takes up all lines; `fuel` bounds their number. -/
def Draft.lines : Nat → Draft → List Char → Option Table
  | 0, _, _ => none
  | fuel + 1, d, cs =>
    match cs.dropWhile isSpace with
    | [] => some d.root
    | c :: rest =>
      match d.line (c :: rest) with
      | some (d, cs) => Draft.lines fuel d cs
      | none => none

/-- The text without a byte order mark at its front. -/
def afterMark : List Char → List Char
  | '\uFEFF' :: cs => cs
  | cs => cs

def parse? (s : String) : Option Table :=
  let cs := afterMark s.toList
  Draft.lines (cs.length + 1) {} cs

end Toml
end HttpExchange
