/-
# Draws

A client draws numbers of 32 bits, one after the other. Nothing is assumed of them:
whatever a generator gives, in whatever order, is a value of `Draws`. A stepping
generator gives the low 32 bits of a 64-bit value that moves on by a fixed step,
with wrap-around.
-/

namespace HttpExchange

/-- The numbers there are to draw, in order, and how many have been drawn. -/
structure Draws where
  numbers : Nat → UInt32 := fun _ => 0
  taken : Nat := 0
  deriving Inhabited

def Draws.next (d : Draws) : UInt32 × Draws :=
  (d.numbers d.taken, { d with taken := d.taken + 1 })

/-- A value and the step to the next one. -/
structure Generator where
  value : UInt64 := 0
  step : UInt64 := 0
  deriving DecidableEq, Repr, Inhabited

def Generator.draws (g : Generator) : Draws where
  numbers n := (g.value + UInt64.ofNat n * g.step).toUInt32

instance : Coe Generator Draws := ⟨Generator.draws⟩

theorem Generator.draws_zero (g : Generator) : g.draws.numbers 0 = g.value.toUInt32 := by
  simp [draws]

/-- After one draw a stepping generator has moved on by its step. -/
theorem Generator.draws_succ (g : Generator) (n : Nat) :
    g.draws.numbers (n + 1) = { g with value := g.value + g.step : Generator }.draws.numbers n := by
  have hsum : g.value + UInt64.ofNat (n + 1) * g.step =
      g.value + g.step + UInt64.ofNat n * g.step := by
    rw [UInt64.ofNat_add, UInt64.add_mul, UInt64.add_comm (UInt64.ofNat n * g.step),
      ← UInt64.add_assoc]
    simp
  exact congrArg UInt64.toUInt32 hsum

end HttpExchange
