/-
# Stream errors

The error a stream may end in. A response whose headers carry the marker
`x-internal-error-code` was made up by the pipeline itself and stands for an
error; its number, message and count of attempts are read from the headers.
-/
import HttpExchange.Headers

namespace HttpExchange

inductive ErrorCode
  | undefinedError
  | streamReset
  | connectionFailure
  | bufferLimitExceeded
  | requestTimeout
  deriving DecidableEq, Repr

namespace ErrorCode

def number : ErrorCode → Nat
  | undefinedError => 0
  | streamReset => 1
  | connectionFailure => 2
  | bufferLimitExceeded => 3
  | requestTimeout => 4

def ofNumber? : Nat → Option ErrorCode
  | 0 => some undefinedError
  | 1 => some streamReset
  | 2 => some connectionFailure
  | 3 => some bufferLimitExceeded
  | 4 => some requestTimeout
  | _ => none

def name : ErrorCode → String
  | undefinedError => "UndefinedError"
  | streamReset => "StreamReset"
  | connectionFailure => "ConnectionFailure"
  | bufferLimitExceeded => "BufferLimitExceeded"
  | requestTimeout => "RequestTimeout"

theorem ofNumber?_eq_some_iff (k : Nat) (c : ErrorCode) :
    ofNumber? k = some c ↔ k = c.number := by
  constructor
  · intro h
    match k, h with
    | 0, h => cases h; rfl
    | 1, h => cases h; rfl
    | 2, h => cases h; rfl
    | 3, h => cases h; rfl
    | 4, h => cases h; rfl
  · rintro rfl
    cases c <;> rfl

end ErrorCode

/-- The error delivered as the end of a stream. -/
structure StreamError where
  code : ErrorCode
  message : Option String
  attempts : Int
  deriving DecidableEq, Repr

namespace StreamError

/-- Marks a response as an error and holds the number of its kind. -/
def codeName : String := "x-internal-error-code"

def messageName : String := "x-internal-error-message"

def attemptsName : String := "x-envoy-attempt-count"

/-- The count of attempts when it is not known. -/
def unknownAttempts : Int := -1

/-- A reset about which nothing else is known. -/
def reset : StreamError := ⟨.streamReset, none, unknownAttempts⟩

/-- The kind a marker's value names; anything that is no number of a kind is undefined. -/
def readCode (v : String) : ErrorCode :=
  ((Text.unsigned Text.max32 (Text.trim v)).bind ErrorCode.ofNumber?).getD .undefinedError

/-- The count of attempts: one if the field is missing, unknown if it does not read. -/
def readAttempts : Option String → Int
  | none => 1
  | some v => (Text.signed32 (Text.trim v)).getD unknownAttempts

/-- The error that marked headers stand for. -/
def ofHeaders? (b : Headers) : Option StreamError :=
  (b.get? codeName).map fun v =>
    ⟨readCode v, b.get? messageName, readAttempts (b.get? attemptsName)⟩

end StreamError
end HttpExchange
