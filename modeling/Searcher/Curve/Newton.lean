/-
# Bounded Newton iteration

Contracts iterate towards a root for at most 255 rounds and revert when it is not found by then. A round either goes
on from a new value or ends with one.
-/

import Searcher.Checked

namespace Searcher
namespace Newton

/-- The rounds after which an iteration is given up. -/
def maxRounds : Nat := 255

/-- What one round yields. -/
inductive Round where
  | again (y : Nat)
  | done (y : Nat)

/-- Rounds from `y` until one is done, at most `rounds` of them. -/
def iterateFor (round : Nat → Quote Round) : (rounds : Nat) → (y : Nat) → Quote Nat
  | 0, _ => .error .noConvergence
  | rounds + 1, y => do
    match ← round y with
    | .again y => iterateFor round rounds y
    | .done y => return y

/-- Rounds from `y` until one is done. -/
def iterate (round : Nat → Quote Round) (y : Nat) : Quote Nat :=
  iterateFor round maxRounds y

/-- A round that is done as soon as the value moves by at most one. -/
def closeRound (next : Nat → Quote Nat) (y : Nat) : Quote Round := do
  let z ← next y
  return if absDiff z y ≤ 1 then .done z else .again z

/-- Repeats `next` until the value moves by at most one. -/
def settle (next : Nat → Quote Nat) (y : Nat) : Quote Nat :=
  iterate (closeRound next) y

end Newton
end Searcher
