/-
# Simulated sandwiches

The attacker buys along a path, the victim is replayed, and the attacker sells what was bought. A trial is rolled back
when a pool's balance moved by more than its rate admits. What counts is the balance of the path's first token beyond
what the attacker held at first.
-/

import Searcher.Simulation.Arbitrage
import Searcher.Simulation.BalanceRate

namespace Searcher
namespace Simulation

variable {σ τ : Type}

/-- What the attacker holds of each pool's output. -/
def poolBalances (e : Engine σ) (outputs : List (Address × Address)) : Simulating σ (List Nat) :=
  outputs.mapM fun (pool, token) => e.balanceOf pool token

/-- Checks each pool's balance against its rate, one after another. -/
def checkRates (e : Engine σ) (outputs : List (Address × Address)) (before : List Nat) (rates : List BalanceRate) :
    Simulating σ Unit :=
  (outputs.zip before).zipIdx.forM fun (((pool, token), held), i) => do
    let after ← e.balanceOf pool token
    unless (rates.getD i .unchecked).admits held after do
      throw (.reverted ("balance rate of " ++ pool.checksummed ++ " below bound"))

/-- What was bought: the gain in the last token. Where the path ends at its first token, the amount paid in has left
the balance and is added back. -/
def bought (isCycle : Bool) (amount before after : Nat) : Nat :=
  (if isCycle then saturate (after + amount) else after) - before

/-- A trial of an amount. -/
def sandwichTrial (e : Engine σ) (s : SimulationSettings) (victim : Transaction) (path : Path)
    (rates : List BalanceRate) (first last : Address) (base amount : Nat) : Simulating σ SandwichTrial := do
  let outputs := path.pools.zip path.tokens.tail
  let heldBefore ← e.balanceOf s.attacker last
  let poolsBefore ← poolBalances e outputs
  let front ← attack e s .frontRun amount path
  checkRates e outputs poolsBefore rates
  let _ ← e.replay victim
  let held ← e.balanceOf s.attacker last
  let backAmount := bought (first = last) amount heldBefore held
  let back ← attack e s .backRun backAmount path
  let revenue := (← e.balanceOf s.attacker first) - base
  return { frontAmount := amount, backAmount, frontGas := front.gas, backGas := back.gas, revenue }

/-- The trial of most revenue, the first one of several. -/
def bestSandwich (trials : List SandwichTrial) : SandwichTrial :=
  trials.foldl (fun best t => if best.revenue < t.revenue then t else best) {}

/-- All trials of the search from an amount. One that fails earns nothing. -/
def searchSandwich [Stride τ] (e : Engine σ) (s : SimulationSettings) (victim : Transaction) (path : Path)
    (rates : List BalanceRate) (first last : Address) (base : Nat) (search : SizeSearch τ) :
    Guarding σ (List SandwichTrial) := do
  let trial (_ amount : Nat) : Guarding σ SandwichTrial := do
    return (← fresh e s (sandwichTrial e s victim path rates first last base amount)).toOption.getD {}
  let yielded (t : SandwichTrial) : Option (Nat × Nat) := some (t.revenue, t.frontGas + t.backGas)
  return (← search.explore s.isExpired trial yielded search.bound 0).1.map (·.2)

/-- The best trial of a sandwich that is searched by a stride, around a victim that trades at the path's last pool, if
any earned something. A zero `amountIn` starts the search at all the attacker holds. -/
def sandwichBy [Stride τ] (stride : τ) (e : Engine σ) (s : SimulationSettings) (victim : Transaction) (path : Path)
    (amountIn : Nat) (rates : List BalanceRate) : Guarding σ (Option SandwichTrial) := do
  match path.tokens.head?, path.tokens.getLast?, path.pools.getLast? with
  | some first, some last, some target =>
    if ¬ victim.swapEvents.any (·.pool = target) then return none
    Guarding.reset e
    let base ← Guarding.ofEngine (e.balanceOf s.attacker first)
    let start := if amountIn = 0 then base else amountIn
    let trials ← searchSandwich e s victim path rates first last base (.sandwichBy stride start base)
    let best := bestSandwich trials
    return if best.revenue = 0 then none else some best
  | _, _, _ => return none

/-- The best trial of a sandwich, if any earned something. -/
def sandwich (e : Engine σ) (s : SimulationSettings) (victim : Transaction) (path : Path) (amountIn : Nat)
    (rates : List BalanceRate) : Guarding σ (Option SandwichTrial) :=
  sandwichBy (Pace.start SizeSearch.gamma) e s victim path amountIn rates

end Simulation
end Searcher
