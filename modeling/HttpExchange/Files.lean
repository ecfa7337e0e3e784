/-
# Files

Why a file cannot be read, and the way a path leads through a tree of
directories. A path is followed name by name: only a directory can be passed
through, an empty name or a dot stays where it is, and two dots go up, though
not beyond the root. A path that ends at a directory cannot be read.

Key definitions: `FileError`, `FileTree`, `FileTree.follow`, `FileTree.read`.
Key theorems: `FileError.ofNumber?_of_number?`.
-/
import HttpExchange.Handle

namespace HttpExchange

inductive FileError
  | notFound
  | denied
  | notDirectory
  | isDirectory
  | nameTooLong
  | linkLoop
  /-- The file was read, but its bytes are no text. -/
  | notText
  deriving DecidableEq, Repr

namespace FileError

/-- The number the system has for an error; a file that is no text is none of
the system's concern. -/
def number? : FileError → Option Nat
  | notFound => some 2
  | denied => some 13
  | notDirectory => some 20
  | isDirectory => some 21
  | nameTooLong => some 36
  | linkLoop => some 40
  | notText => none

def ofNumber? (n : Nat) : Option FileError :=
  [notFound, denied, notDirectory, isDirectory, nameTooLong, linkLoop].find? fun e =>
    e.number? == some n

/-- Different errors have different numbers. -/
theorem ofNumber?_of_number? {e : FileError} {n : Nat} (h : e.number? = some n) :
    ofNumber? n = some e := by
  cases e <;> cases h <;> rfl

def words : FileError → String
  | notFound => "No such file or directory"
  | denied => "Permission denied"
  | notDirectory => "Not a directory"
  | isDirectory => "Is a directory"
  | nameTooLong => "File name too long"
  | linkLoop => "Too many levels of symbolic links"
  | notText => "stream did not contain valid UTF-8"

def message (e : FileError) : String :=
  match e.number? with
  | some n => e.words ++ " (os error " ++ toString n ++ ")"
  | none => e.words

end FileError

inductive FileTree
  | file (bytes : Bytes)
  | directory (entries : List (String × FileTree))

namespace FileTree

/-- The greatest number of bytes in a name. -/
def maxName : Nat := 255

def maxPath : Nat := 4095

/-- Follows names to where they lead; `above` holds the directories above this
one, nearest first. -/
def follow (above : List FileTree) (here : FileTree) : List String → Except FileError FileTree
  | [] => .ok here
  | name :: names =>
    match here with
    | file _ => .error .notDirectory
    | directory entries =>
      if name = "" ∨ name = "." then follow above here names
      else if name = ".." then
        match above with
        | [] => follow [] here names
        | up :: above => follow above up names
      else if maxName < name.utf8ByteSize then .error .nameTooLong
      else
        match entries.find? fun e => e.1 == name with
        | none => .error .notFound
        | some e => follow (here :: above) e.2 names

/-- The bytes that a path leads to. A path without a slash in front starts from
the directory `current`. -/
def read (root : FileTree) (current path : String) : Except FileError Bytes :=
  if maxPath < path.utf8ByteSize then .error .nameTooLong
  else
    let whole := if path.startsWith "/" then path else current ++ "/" ++ path
    match follow [] root (whole.splitOn "/") with
    | .error e => .error e
    | .ok (file bytes) => .ok bytes
    | .ok (directory _) => .error .isDirectory

end FileTree
end HttpExchange
