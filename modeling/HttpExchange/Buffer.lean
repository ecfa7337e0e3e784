/-
# Buffers with watermarks

A buffer takes every byte it is given. It reports once when its length rises
above the high mark, and once more when a drain leaves it under the low mark,
half of the high one; in between it keeps silent.
-/
import HttpExchange.Handle

namespace HttpExchange

inductive Crossing
  /-- The length rose above the high mark. -/
  | aboveHigh
  /-- The length fell under the low mark after it had been above the high one. -/
  | belowLow
  deriving DecidableEq, Repr

/-- Bytes in waiting, the high mark, and whether the last report was `aboveHigh`. -/
structure Buffer where
  high : Nat
  bytes : Bytes := []
  raised : Bool := false
  deriving DecidableEq, Repr, Inhabited

namespace Buffer

/-- The low mark is half of the high one, rounded down. -/
def low (b : Buffer) : Nat := b.high / 2

def size (b : Buffer) : Nat := b.bytes.length

def isEmpty (b : Buffer) : Bool := b.bytes.isEmpty

def push (b : Buffer) (chunk : Bytes) : Buffer × Option Crossing :=
  let bytes := b.bytes ++ chunk
  if !b.raised && b.high < bytes.length then
    ({ b with bytes := bytes, raised := true }, some .aboveHigh)
  else ({ b with bytes := bytes }, none)

/-- Takes up to `most` bytes from the front. -/
def drain (b : Buffer) (most : Nat) : Bytes × Buffer × Option Crossing :=
  let rest := b.bytes.drop most
  if b.raised && rest.length < b.low then
    (b.bytes.take most, { b with bytes := rest, raised := false }, some .belowLow)
  else (b.bytes.take most, { b with bytes := rest }, none)

@[simp] theorem bytes_push (b : Buffer) (chunk : Bytes) :
    (b.push chunk).1.bytes = b.bytes ++ chunk := by
  simp only [push]; split <;> rfl

@[simp] theorem fst_drain (b : Buffer) (most : Nat) : (b.drain most).1 = b.bytes.take most := by
  simp only [drain]; split <;> rfl

@[simp] theorem bytes_drain (b : Buffer) (most : Nat) :
    (b.drain most).2.1.bytes = b.bytes.drop most := by
  simp only [drain]; split <;> rfl

/-- A drain cuts the bytes in two, losing none. -/
theorem drain_append (b : Buffer) (most : Nat) :
    (b.drain most).1 ++ (b.drain most).2.1.bytes = b.bytes := by
  rw [fst_drain, bytes_drain, List.take_append_drop]

@[simp] theorem high_push (b : Buffer) (chunk : Bytes) : (b.push chunk).1.high = b.high := by
  simp only [push]; split <;> rfl

@[simp] theorem high_drain (b : Buffer) (most : Nat) : (b.drain most).2.1.high = b.high := by
  simp only [drain]; split <;> rfl

end Buffer
end HttpExchange
