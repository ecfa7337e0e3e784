/-
# Errands

The simplest work for a dispatcher: an errand notes its tag and then hands
errands with further tags to the intake, noting those that are refused.
-/
import HttpExchange.Intake

namespace HttpExchange

/-- A tag to note and the tags to hand in afterwards. -/
structure Errand where
  tag : Int
  followers : List Int := []
  deriving DecidableEq, Repr, Inhabited

namespace Errand

inductive Note
  | ran (tag : Int)
  | refused (tag : Int) (why : CallError)
  deriving DecidableEq, Repr

def handIn (i : Intake Errand) : List Int → Intake Errand × List Note
  | [] => (i, [])
  | t :: rest =>
    match i.post { tag := t } with
    | (i, .ok ()) => handIn i rest
    | (i, .error e) =>
      let (i, notes) := handIn i rest
      (i, .refused t e :: notes)

/-- The number of turns that the work in the channels can take. -/
def work (i : Intake Errand) : Nat :=
  i.channels.foldl
    (fun turns c => c.pending.foldl (fun turns e => turns + 1 + e.followers.length) turns) 0

/-- Runs channel `n` until it is empty, for at most `turns` turns. -/
def runChannel (n : Nat) : Nat → Intake Errand → Intake Errand × List Note
  | 0, i => (i, [])
  | turns + 1, i =>
    match i.next? n with
    | none => (i, [])
    | some (e, i) =>
      let (i, notes) := handIn i e.followers
      let (i, later) := runChannel n turns i
      (i, .ran e.tag :: notes ++ later)

/-- Runs the channels below `m`, each until it is empty, in order of number. -/
def runBelow (i : Intake Errand) : Nat → Intake Errand × List Note
  | 0 => (i, [])
  | m + 1 =>
    let (i, notes) := runBelow i m
    let (i, more) := runChannel m (work i) i
    (i, notes ++ more)

def runAll (i : Intake Errand) : Intake Errand × List Note := runBelow i i.channels.length

end Errand
end HttpExchange
