/-
# Command line options

Options come in any order and at most once each; there are no other arguments.
A value stands in the next argument, or behind an equals sign, or directly
behind a single letter. An argument that looks like an option is never a value.

Key definitions: `Cli.Options`, `Cli.Request`, `Cli.readOptions`.
-/
import HttpExchange.Network
import HttpExchange.Text.Numeral

namespace HttpExchange
namespace Cli

structure Options where
  config : Option String := none
  explicitFlowControl : Bool := false
  network : Option Network := none
  scheme : String := "https"
  body : String := "hello from stream-engine"
  credit : Nat := 8
  errorCode : Option Nat := none
  deriving DecidableEq, Repr

inductive Key
  | config
  | network
  | scheme
  | body
  | credit
  | errorCode
  deriving DecidableEq, Repr

inductive Request
  | run (o : Options)
  | help
  | misuse
  deriving DecidableEq, Repr

/-- The options read so far, and which were given. -/
structure Draft where
  options : Options := {}
  given : List Key := []

/-- An option's value is taken up, unless the option was given before or the
value does not read. -/
def Draft.set (d : Draft) (k : Key) (v : String) : Option Draft :=
  if k ∈ d.given then none
  else
    let keep (o : Options) : Draft := ⟨o, k :: d.given⟩
    match k with
    | .config => if v = "" then none else some (keep { d.options with config := some v })
    | .network =>
      match Network.ofText v with
      | .ok n => some (keep { d.options with network := some n })
      | .error _ => none
    | .scheme => some (keep { d.options with scheme := v })
    | .body => some (keep { d.options with body := v })
    | .credit =>
      (Text.unsigned Text.max64 v).map fun n => keep { d.options with credit := n }
    | .errorCode =>
      (Text.signed 0 Text.max32 v).map fun n =>
        keep { d.options with errorCode := some n.toNat }

def keyOf? : List Char → Option Key
  | name =>
    match String.ofList name with
    | "config" => some .config
    | "network" => some .network
    | "scheme" => some .scheme
    | "body" => some .body
    | "credit" => some .credit
    | "error-code" => some .errorCode
    | _ => none

def looksLikeOption : List Char → Bool
  | '-' :: _ :: _ => true
  | _ => false

inductive Shape
  /-- An option with its value, or one whose value comes next. -/
  | valued (k : Key) (v : Option (List Char))
  | explicitFlowControl
  | help
  /-- Two hyphens: no options come after. -/
  | rest
  | unknown
  deriving DecidableEq

def shapeOf : List Char → Shape
  | ['-', '-'] => .rest
  | '-' :: '-' :: long =>
    let name := long.takeWhile (· ≠ '=')
    let value := match long.dropWhile (· ≠ '=') with
      | [] => none
      | _ :: v => some v
    match keyOf? name, value with
    | some k, v => .valued k v
    | none, some _ => .unknown
    | none, none =>
      if String.ofList name = "explicit-flow-control" then .explicitFlowControl
      else if String.ofList name = "help" then .help
      else .unknown
  | '-' :: 'h' :: _ => .help
  | ['-', 'c'] => .valued .config none
  | '-' :: 'c' :: '=' :: v => .valued .config (some v)
  | '-' :: 'c' :: v => .valued .config (some v)
  | _ => .unknown

/-- Reads arguments one by one; the first that makes no sense, or asks for help,
decides. -/
def readOnto (d : Draft) : List (List Char) → Request
  | [] => .run d.options
  | arg :: args =>
    match shapeOf arg with
    | .rest => if args.isEmpty then .run d.options else .misuse
    | .unknown => .misuse
    | .help => .help
    | .explicitFlowControl =>
      if d.options.explicitFlowControl then .misuse
      else readOnto { d with options := { d.options with explicitFlowControl := true } } args
    | .valued k (some v) =>
      match d.set k (String.ofList v) with
      | some d => readOnto d args
      | none => .misuse
    | .valued k none =>
      match args with
      | [] => .misuse
      | v :: args =>
        if looksLikeOption v then .misuse
        else
          match d.set k (String.ofList v) with
          | some d => readOnto d args
          | none => .misuse

def readOptions (args : List String) : Request := readOnto {} (args.map String.toList)

end Cli
end HttpExchange
