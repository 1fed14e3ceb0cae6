/-
# Hops at pairs of reserves

A hop is a constant-product pool seen in the direction of a trade. A path all of whose hops are of this kind is known
exactly once their reserves are, after the swaps of a victim that comes first.
-/

import Searcher.Market
import Searcher.SwapEvent

namespace Searcher

/-- The reserves of a pair in the direction of a trade. -/
structure Hop where
  reserveIn : Nat
  reserveOut : Nat
  fee : Fee
deriving DecidableEq, Repr, Inhabited

namespace Hop

/-- The pool in the direction from one token to another. -/
def ofPool? (pool : Pool) (tokenIn tokenOut : Address) : Option Hop :=
  match pool.state with
  | .constantProduct reserve0 reserve1 fee => do
    let i ← pool.indexOf? tokenIn
    let j ← pool.indexOf? tokenOut
    if i = j then none
    else if i = 0 then some ⟨reserve0, reserve1, fee⟩
    else some ⟨reserve1, reserve0, fee⟩
  | _ => none

/-- The sum of a reserve and an amount, if it fits into 256 bits. -/
def gained (reserve amount : Nat) : Option Nat := if reserve + amount < wordSize then some (reserve + amount) else none

/-- A reserve less an amount, if it holds that much. -/
def spent (reserve amount : Nat) : Option Nat := if amount ≤ reserve then some (reserve - amount) else none

/-- The hop once an event has happened at its pool, in the same direction if it pays in `tokenIn`. -/
def after (hop : Hop) (e : SwapEvent) (tokenIn : Address) : Option Hop := do
  if e.tokenIn = tokenIn then
    let reserveIn ← gained hop.reserveIn e.amountIn
    return { hop with reserveIn, reserveOut := ← spent hop.reserveOut e.amountOut }
  else
    let reserveIn ← spent hop.reserveIn e.amountOut
    return { hop with reserveIn, reserveOut := ← gained hop.reserveOut e.amountIn }

/-- Swaps an input through the hop: what it pays, and the hop afterwards. -/
def swap (hop : Hop) (amountIn : Nat) : Quote (Nat × Hop) := do
  let s ← ConstantProduct.swap amountIn hop.reserveIn hop.reserveOut hop.fee
  return (s.amountOut, { hop with reserveIn := s.reserveIn, reserveOut := s.reserveOut })

/-- The same pool in the other direction. -/
def reversed (hop : Hop) : Hop := ⟨hop.reserveOut, hop.reserveIn, hop.fee⟩

/-- What an input pays, the hop staying as it is. -/
def amountOut (hop : Hop) (amountIn : Nat) : Quote Nat :=
  ConstantProduct.amountOut amountIn hop.reserveIn hop.reserveOut hop.fee

/-- What an input pays at the end of a row of hops. -/
def chain (amountIn : Nat) (hops : List Hop) : Quote Nat :=
  hops.foldlM (fun amount hop => hop.amountOut amount) amountIn

/-- The hop of a leg after those of the events that happened at its pool. -/
def ofLeg? (market : Market) (events : List SwapEvent) (leg : Leg) : Option Hop := do
  let pool ← market leg.pool
  let hop ← ofPool? pool leg.tokenIn leg.tokenOut
  (events.filter fun e => e.pool = leg.pool).foldlM (fun hop e => hop.after e leg.tokenIn) hop

/-- The hops of a path after some events, if all its pools are loaded pairs. -/
def ofPath? (market : Market) (path : Path) (events : List SwapEvent) : Option (List Hop) :=
  if path.isValid then path.legs.mapM (ofLeg? market events) else none

end Hop
end Searcher
