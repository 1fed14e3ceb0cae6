/-
# Simulated arbitrages

The victim is replayed, then the attacker trades along a path. A probe with a small amount tells whether the path works
at all; a search over amounts follows. What counts is the balance of the path's last token beyond the balance of its
first that the attacker held after the victim.

The stride of the search is a parameter (`arbitrageBy`); an arbitrage searches at a pace.
-/

import Searcher.Attack.Function
import Searcher.Simulation.ForkGuard
import Searcher.Simulation.SizeSearch

namespace Searcher

/-- What simulations have in common. -/
structure SimulationSettings where
  /-- The attacker contract. -/
  attacker : Address
  /-- The account that calls it. -/
  owner : Address
  /-- The budget of a trial in milliseconds. -/
  trialTimeout : Nat := 1000
  /-- The time for a path is over from the start, so that only its first amount is tried. -/
  isExpired : Bool := false

namespace Simulation

variable {σ τ : Type}

/-- The amount of a probe. -/
def probeAmount : Nat := 10 ^ 14

/-- A call of the attacker contract by its owner. -/
def attack (e : Engine σ) (s : SimulationSettings) (f : AttackFunction) (amount : Nat) (path : Path) :
    Simulating σ CallOutcome :=
  e.call { caller := s.owner, receiver := s.attacker, data := f.callData amount path }

/-- A probe of a path after the victim. The result is what the attacker held in between of the first token. -/
def probe (e : Engine σ) (s : SimulationSettings) (victim : Transaction) (path : Path) (first : Address) :
    Simulating σ Nat := do
  let _ ← e.replay victim
  let base ← e.balanceOf s.attacker first
  let _ ← attack e s .arbitrage probeAmount path
  return base

/-- A trial of an amount after the victim: the balance beyond `base`, and the gas used. -/
def arbitrageTrial (e : Engine σ) (s : SimulationSettings) (victim : Transaction) (path : Path) (last : Address)
    (base amount : Nat) : Simulating σ (Nat × Nat) := do
  let _ ← e.replay victim
  let outcome ← attack e s .arbitrage amount path
  let after ← e.balanceOf s.attacker last
  return (after - base, outcome.gas)

/-- Goes back to the pinned state and runs a trial within its budget. -/
def fresh {α : Type} (e : Engine σ) (s : SimulationSettings) (x : Simulating σ α) :
    Guarding σ (Except SimulationError α) := do
  Guarding.reset e
  Guarding.attempt (Guarding.ofEngine (e.within s.trialTimeout x))

/-- The search from an amount. A trial that fails counts as one without output. -/
def searchArbitrage [Stride τ] (e : Engine σ) (s : SimulationSettings) (victim : Transaction) (path : Path)
    (last : Address) (base : Nat) (search : SizeSearch τ) : Guarding σ (SizeSearch τ) := do
  let trial (_ amount : Nat) : Guarding σ (Nat × Nat) := do
    return (← fresh e s (arbitrageTrial e s victim path last base amount)).toOption.getD (0, 0)
  return (← search.explore s.isExpired trial some search.bound 0).2

/-- The best trial of an arbitrage that is searched by a stride, if any earned something. -/
def arbitrageBy [Stride τ] (stride : τ) (e : Engine σ) (s : SimulationSettings) (victim : Transaction) (path : Path) :
    Guarding σ (Option Trial) := do
  match path.tokens.head?, path.tokens.getLast? with
  | some first, some last =>
    match ← fresh e s (probe e s victim path first) with
    | .error _ => return none
    | .ok base =>
      let start := if path.amountIn = 0 then base else path.amountIn
      return (← searchArbitrage e s victim path last base (.arbitrageBy stride start)).finish
  | _, _ => return none

/-- The best trial of an arbitrage, if any earned something. -/
def arbitrage (e : Engine σ) (s : SimulationSettings) (victim : Transaction) (path : Path) :
    Guarding σ (Option Trial) :=
  arbitrageBy (Pace.start SizeSearch.gamma) e s victim path

end Simulation
end Searcher
