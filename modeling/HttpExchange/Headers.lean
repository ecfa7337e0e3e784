/-
# Header blocks

A header block is an ordered list of names and values, pseudo-headers such as
`:status` among them. Names are stored in lower case and compared without the
case of ASCII letters; values are kept as they came. A name may occur several
times.
-/
import HttpExchange.Text.Ascii
import HttpExchange.Text.Blank
import HttpExchange.Text.Numeral

namespace HttpExchange

structure Headers where
  entries : List (String × String) := []
  deriving DecidableEq, Repr, Inhabited

namespace Headers

def schemeName : String := ":scheme"

def statusName : String := ":status"

def named (n : String) (e : String × String) : Bool := Text.alike e.1 n

/-- Appends a field; fields of the same name stay. -/
def add (b : Headers) (n v : String) : Headers := ⟨b.entries ++ [(Text.lower n, v)]⟩

def ofList (fields : List (String × String)) : Headers :=
  fields.foldl (fun b f => b.add f.1 f.2) {}

/-- Drops every field of the name `n`. -/
def remove (b : Headers) (n : String) : Headers := ⟨b.entries.filter fun e => !named n e⟩

def count (b : Headers) (n : String) : Nat := b.entries.countP (named n)

/-- Leaves one field of the name `n`, at the end. -/
def set (b : Headers) (n v : String) : Headers :=
  ⟨(b.remove (Text.lower n)).entries ++ [(Text.lower n, v)]⟩

/-- The first value under the name `n`. -/
def get? (b : Headers) (n : String) : Option String := (b.entries.find? (named n)).map (·.2)

def getAll (b : Headers) (n : String) : List String := (b.entries.filter (named n)).map (·.2)

def contains (b : Headers) (n : String) : Bool := (b.get? n).isSome

def size (b : Headers) : Nat := b.entries.length

def isEmpty (b : Headers) : Bool := b.entries.isEmpty

def scheme? (b : Headers) : Option String := b.get? schemeName

/-- The status of a response, if it reads as a 16-bit number. -/
def status? (b : Headers) : Option Nat :=
  (b.get? statusName).bind fun v => Text.unsigned Text.max16 (Text.trim v)

/-- The block on one line: `name: value` pairs with commas between. -/
def render (b : Headers) : String :=
  ", ".intercalate (b.entries.map fun e => e.1 ++ ": " ++ e.2)

@[simp] theorem entries_add (b : Headers) (n v : String) :
    (b.add n v).entries = b.entries ++ [(Text.lower n, v)] := rfl

@[simp] theorem entries_remove (b : Headers) (n : String) :
    (b.remove n).entries = b.entries.filter fun e => !named n e := rfl

@[simp] theorem entries_set (b : Headers) (n v : String) :
    (b.set n v).entries = (b.remove (Text.lower n)).entries ++ [(Text.lower n, v)] := rfl

end Headers
end HttpExchange
