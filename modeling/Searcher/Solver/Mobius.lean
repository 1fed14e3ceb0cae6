/-
# The best input of a constant-product cycle

A hop maps an input `x` to `a x / (b + c x)` with `a = keep * reserveOut`, `b = base * reserveIn` and `c = keep`. Maps
of this form compose, so a row of hops maps `x` to `P x / (Q + K x)`. The profit `P x / (Q + K x) - x` is largest where
`(Q + K x)² = P Q`, that is at `x = (√(P Q) - Q) / K`.

The profit that is reported is that of the integer swaps at this input.
-/

import Searcher.Solver.Hop
import Searcher.Solver.Wide

namespace Searcher

/-- The map `x ↦ p x / (q + k x)`. -/
structure Mobius where
  p : Nat
  q : Nat
  k : Nat
deriving DecidableEq, Repr

namespace Mobius

/-- The map that leaves every input as it is. -/
def id : Mobius := ⟨1, 1, 0⟩

/-- The map followed by a hop. -/
def next (map : Mobius) (hop : Hop) : Option Mobius := do
  let a ← Wide.mul hop.fee.keep hop.reserveOut
  let b ← Wide.mul hop.fee.base hop.reserveIn
  let k ← Wide.add (← Wide.mul b map.k) (← Wide.mul hop.fee.keep map.p)
  return ⟨← Wide.mul a map.p, ← Wide.mul b map.q, k⟩

/-- The map of a row of hops, if its coefficients fit. -/
def compose (hops : List Hop) : Option Mobius := hops.foldlM next id

/-- The input of largest profit, if any input has a profit. -/
def optimum (map : Mobius) : Option Nat := do
  if map.p ≤ map.q ∨ map.k = 0 then none
  let root := Root.isqrt (← Wide.mul map.p map.q)
  Wide.amount? ((← Wide.sub root map.q) / map.k)

end Mobius

/-- An input and the profit it makes. Both are zero when there is none. -/
structure Opportunity where
  amountIn : Nat
  revenue : Nat
deriving DecidableEq, Repr, Inhabited

namespace Opportunity

/-- No opportunity. -/
def none : Opportunity := ⟨0, 0⟩

/-- The opportunity of an input with the output `out`, if that is more. -/
def ofOutput (amountIn out : Nat) : Opportunity :=
  if amountIn < out then ⟨amountIn, out - amountIn⟩ else none

/-- The best input of a row of hops. -/
def ofHops (hops : List Hop) : Opportunity :=
  if hops.isEmpty || hops.any fun h => h.reserveIn = 0 ∨ h.reserveOut = 0 then none
  else match (Mobius.compose hops).bind Mobius.optimum with
    | .none => none
    | .some x => match Hop.chain x hops with
      | .ok out => ofOutput x out
      | .error _ => none

/-- The best input of a cycle at pairs of reserves, after some events. -/
def arbitrage (path : Path) (market : Market) (events : List SwapEvent) : Opportunity :=
  if path.isConstantProduct ∧ path.isCycle then
    match Hop.ofPath? market path events with
    | .some hops => ofHops hops
    | .none => none
  else none

/-- The revenue below which an opportunity is not worth a simulation: two transactions of a hundred thousand gas at one
gwei. -/
def gasFloor : Nat := 10 ^ 9 * 100000 * 2

/-- Whether a revenue is worth a simulation. -/
def passesGasFloor (revenue : Nat) : Bool := gasFloor ≤ revenue

end Opportunity
end Searcher
