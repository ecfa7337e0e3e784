/-
# Configurations in TOML

A configuration is read from a document with one table for each section. Keys
that are not known are passed over, keys that are missing have their defaults,
and a value of the wrong type is an error. A section may also be given as an
array of its values in order, and the network as a table with one key, its
name, over an empty table or array.

Key definitions: `Config.ofTable?`, `ConfigError`, `Config.parse`,
`Config.load`.
-/
import HttpExchange.Config.Validation
import HttpExchange.Files
import HttpExchange.Text.Utf8
import HttpExchange.Toml.Document

namespace HttpExchange

inductive ConfigError
  | file (e : FileError)
  | malformed
  | invalid (issues : List ConfigIssue)
  deriving DecidableEq, Repr

def ConfigError.message : ConfigError → String
  | file e => "IO error: " ++ e.message
  | malformed => "Parse error"
  | invalid issues => "Validation failed: " ++ ConfigIssue.messages issues

namespace Toml.Item

/-- The values of a section's keys, each if it is given: by key from a table, by
place from an array. A date holds none of them. -/
def fields? (keys : List String) : Item → Option (List (Option Item))
  | .table t => some (keys.map t.find?)
  | .array items => some ((List.range keys.length).map fun i => items[i]?)
  | .tables ts => some ((List.range keys.length).map fun i => (ts[i]?).map .table)
  | .dateTime => some (keys.map fun _ => none)
  | _ => none

def boolean? : Item → Option Bool
  | .boolean b => some b
  | _ => none

/-- A size: an integer that is not negative. -/
def size? : Item → Option Nat
  | .integer n => if 0 ≤ n then some n.toNat else none
  | _ => none

def text? : Item → Option String
  | .text s => some s
  | _ => none

/-- Whether nothing is inside a table or an array. -/
def isHollow : Item → Bool
  | .array items => items.isEmpty
  | .table t => t.entries.isEmpty
  | .tables ts => ts.isEmpty
  | _ => false

/-- A network: its name, or a table with its name over nothing. -/
def network? : Item → Option Network
  | .text s => Network.ofName? s
  | .table t =>
    match t.entries with
    | [(k, v)] => if v.isHollow then Network.ofName? k else none
    | _ => none
  | _ => none

end Toml.Item

namespace Config

open Toml (Item Table)

/-- The value of a field: read if it is given, else the default. -/
def field {α : Type} (read : Item → Option α) (default : α) : Option Item → Option α
  | some v => read v
  | none => some default

/-- Reads a section if it is given; `read` gets the values of its keys. -/
def readSection {α : Type} (t : Table) (name : String) (keys : List String)
    (read : List (Option Item) → Option α) (default : α) : Option α :=
  match t.find? name with
  | some v => (v.fields? keys).bind read
  | none => some default

def flowControl? (t : Table) : Option FlowControl :=
  readSection t "flow_control" ["explicit", "buffer_high_watermark"]
    (fun
      | [explicit, high] => do
        return ⟨← field Item.boolean? false explicit, ← field Item.size? 1000000 high⟩
      | _ => none) {}

def network? (t : Table) : Option NetworkSettings :=
  readSection t "network" ["preferred_network"]
    (fun
      | [preferred] => do return ⟨← field Item.network? .generic preferred⟩
      | _ => none) {}

def dispatcher? (t : Table) : Option DispatcherSettings :=
  readSection t "dispatcher" ["thread_name"]
    (fun
      | [name] => do return ⟨← field Item.text? "stream-dispatcher" name⟩
      | _ => none) {}

def observability? (t : Table) : Option Observability :=
  readSection t "observability" ["log_level", "metrics_enabled"]
    (fun
      | [level, metrics] => do
        return ⟨← field Item.text? "info" level, ← field Item.boolean? true metrics⟩
      | _ => none) {}

/-- The configuration in a document, if all values have the right types. -/
def ofTable? (t : Table) : Option Config := do
  return {
    flowControl := ← flowControl? t
    network := ← network? t
    dispatcher := ← dispatcher? t
    observability := ← observability? t }

/-- A configuration that keeps all rules, from its text. -/
def parse (s : String) : Except ConfigError Config :=
  match (Toml.parse? s).bind ofTable? with
  | none => .error .malformed
  | some c => if c.issues = [] then .ok c else .error (.invalid c.issues)

def load (contents : Except FileError Bytes) : Except ConfigError Config :=
  match contents with
  | .error e => .error (.file e)
  | .ok bytes =>
    match Text.Utf8.decode? bytes with
    | none => .error (.file .notText)
    | some s => parse s

end Config
end HttpExchange
