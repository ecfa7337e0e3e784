/-
# Tables of a TOML document

A document is a table of items under keys. How a table came about decides what
may be added to it later: a header opens a table once, a header for a table
inside makes the tables on its path, and so does a dotted key; a table written
in braces is closed for good.

Key definitions: `Toml.Item`, `Toml.Table`, `Toml.Table.put`,
`Toml.Table.openHeader`, `Toml.Table.openElement`, `Toml.Table.within`.
-/

namespace HttpExchange
namespace Toml

inductive Origin
  /-- By a header of its own, or as the whole document. -/
  | header
  /-- On the path of a header. -/
  | implied
  /-- On the path of a dotted key. -/
  | dotted
  | inline
  deriving DecidableEq, Repr, Inhabited

mutual

/-- What stands under a key. No reader asks for the value of a float or a date,
so those are kept without one. -/
inductive Item
  | text (s : String)
  | integer (n : Int)
  | float
  | boolean (b : Bool)
  | dateTime
  | array (items : List Item)
  | table (t : Table)
  /-- The tables of the headers in double brackets. -/
  | tables (ts : List Table)

/-- Keys and what stands under them, in order of appearance. -/
inductive Table
  | mk (origin : Origin) (entries : List (String × Item))

end

instance : Inhabited Item := ⟨.float⟩

namespace Table

def origin : Table → Origin
  | .mk o _ => o

def entries : Table → List (String × Item)
  | .mk _ es => es

def empty (o : Origin) : Table := .mk o []

instance : Inhabited Table := ⟨empty .header⟩

def find? (t : Table) (k : String) : Option Item := t.entries.lookup k

def add (t : Table) (k : String) (v : Item) : Table := .mk t.origin (t.entries ++ [(k, v)])

/-- The table with another item under a key that is there. -/
def replace (t : Table) (k : String) (v : Item) : Table :=
  .mk t.origin (t.entries.map fun e => if e.1 = k then (k, v) else e)

def changeLast (f : Table → Option Table) : List Table → Option (List Table)
  | [] => none
  | [t] => (f t).map fun t => [t]
  | t :: ts => (changeLast f ts).map fun ts => t :: ts

/-- Puts an item under a dotted key whose last part is `k`. The tables on the
way are made, or were made by dotted keys or headers further in; the last must
have been made by dotted keys. -/
def put (v : Item) (k : String) : List String → Table → Option Table
  | [], t => if (t.find? k).isSome then none else some (t.add k v)
  | p :: path, t =>
    match t.find? p with
    | none => (put v k path (empty .dotted)).map fun s => t.add p (.table s)
    | some (.table s) =>
      if s.origin = .dotted || (s.origin = .implied && !path.isEmpty) then
        (put v k path s).map fun s => t.replace p (.table s)
      else none
    | some (.tables ts) =>
      if path.isEmpty then none
      else (changeLast (put v k path) ts).map fun ts => t.replace p (.tables ts)
    | some _ => none

/-- Changes the table under a key that a header goes through; one that is not
there is implied. -/
def descend (k : String) (f : Table → Option Table) (t : Table) : Option Table :=
  match t.find? k with
  | none => (f (empty .implied)).map fun s => t.add k (.table s)
  | some (.table s) =>
    if s.origin = .inline then none else (f s).map fun s => t.replace k (.table s)
  | some (.tables ts) => (changeLast f ts).map fun ts => t.replace k (.tables ts)
  | some _ => none

def within (f : Table → Option Table) : List String → Table → Option Table
  | [], t => f t
  | k :: path, t => t.descend k (within f path)

/-- Opens the table of a header whose last key is `k`: a new one, or one that
was only implied. -/
def openHeader (k : String) (t : Table) : Option Table :=
  match t.find? k with
  | none => some (t.add k (.table (empty .header)))
  | some (.table s) =>
    if s.origin = .implied then some (t.replace k (.table (.mk .header s.entries))) else none
  | some _ => none

/-- Adds an element for a header in double brackets whose last key is `k`. -/
def openElement (k : String) (t : Table) : Option Table :=
  match t.find? k with
  | none => some (t.add k (.tables [empty .header]))
  | some (.tables ts) => some (t.replace k (.tables (ts ++ [empty .header])))
  | some _ => none

end Table
end Toml
end HttpExchange
