/-
# Paths around a victim

A victim that swaps at a pool leaves its price out of line with the other pools of its tokens.

* An **arbitrage** is a cycle from the wrapped native token through the victim's pool against the victim. A victim that
  trades the wrapped token leaves a cycle of two hops; any other swap `A -> B` leaves `W -> B -> A -> W` and
  `W -> A -> B -> A -> W`.
* A **sandwich** buys what the victim buys before it does. A victim that does not pay in the wrapped token is reached
  through another pool first.

The other hops are at the deepest pools of their tokens, and never at the victim's own pool.
-/

import Searcher.Path
import Searcher.PoolIndex
import Searcher.SwapEvent

namespace Searcher
namespace PathFinder

/-- Two tokens whose pools a search needs. -/
abbrev TokenPair := Address × Address

/-- Whether both pairs hold the same tokens. -/
def samePair (p q : TokenPair) : Bool := p = q ∨ (p.1 = q.2 ∧ p.2 = q.1)

/-- The pairs of different tokens, each only once and in either order. -/
def distinctPairs (pairs : List TokenPair) : List TokenPair :=
  (pairs.foldl (fun kept p => if p.1 = p.2 ∨ kept.any (samePair p) then kept else p :: kept) []).reverse

/-- The pairs whose pools a search for arbitrages needs. -/
def arbitragePairs (events : List SwapEvent) (wrapped : Address) : List TokenPair :=
  distinctPairs <| events.flatMap fun e =>
    if e.touches wrapped then [(e.tokenIn, e.tokenOut)]
    else [(wrapped, e.tokenOut), (e.tokenIn, wrapped), (e.tokenIn, e.tokenOut)]

/-- The pairs whose pools a search for sandwiches needs. -/
def sandwichPairs (events : List SwapEvent) (wrapped : Address) : List TokenPair :=
  distinctPairs ((events.filter fun e => e.tokenIn ≠ wrapped).map fun e => (wrapped, e.tokenIn))

/-- The hop at a linked pool. -/
def hop (link : PoolLink) : Exchange × Address := (link.exchange, link.pool)

/-- The cycle of two hops against a victim that trades the wrapped token: buy where the price is old, sell where the
victim bought, or the other way round. -/
def directCycles (e : SwapEvent) (index : PoolIndex) (wrapped : Address) : List Path :=
  let other := if e.tokenIn = wrapped then e.tokenOut else e.tokenIn
  match index.deepest wrapped other [e.pool] with
  | none => []
  | some link =>
    if e.tokenIn = wrapped then
      [.ofHops e.amountIn [hop link, (e.exchange, e.pool)] [wrapped, other, wrapped]]
    else [.ofHops 0 [(e.exchange, e.pool), hop link] [wrapped, other, wrapped]]

/-- The cycle `W -> B -> A -> W` against a victim that swaps `A -> B`. -/
def triangle (e : SwapEvent) (index : PoolIndex) (wrapped : Address) : Option Path := do
  let front ← index.deepest wrapped e.tokenOut [e.pool]
  let back ← index.deepest wrapped e.tokenIn [e.pool]
  return .ofHops 0 [hop front, (e.exchange, e.pool), hop back] [wrapped, e.tokenOut, e.tokenIn, wrapped]

/-- The cycle `W -> A -> B -> A -> W` against a victim that swaps `A -> B`. -/
def detour (e : SwapEvent) (index : PoolIndex) (wrapped : Address) : Option Path := do
  let (first, second) := index.deepestTwo wrapped e.tokenIn [e.pool]
  let first ← first
  let second ← second
  let middle ← index.deepest e.tokenIn e.tokenOut [e.pool]
  return .ofHops 0 [hop first, hop middle, (e.exchange, e.pool), hop second]
    [wrapped, e.tokenIn, e.tokenOut, e.tokenIn, wrapped]

/-- The arbitrages against one event. -/
def cyclesAgainst (e : SwapEvent) (index : PoolIndex) (wrapped : Address) : List Path :=
  if e.touches wrapped then directCycles e index wrapped
  else (triangle e index wrapped).toList ++ (detour e index wrapped).toList

/-- The arbitrages against some events. -/
def arbitrages (events : List SwapEvent) (index : PoolIndex) (wrapped : Address) : List Path :=
  (events.flatMap fun e => cyclesAgainst e index wrapped).filter fun p => p.isValid ∧ p.isCycle

/-- The sandwich of one event. -/
def routeTo (e : SwapEvent) (index : PoolIndex) (wrapped : Address) : Option Path :=
  if e.tokenIn = wrapped then some (.ofHops e.amountIn [(e.exchange, e.pool)] [wrapped, e.tokenOut])
  else (index.deepest wrapped e.tokenIn [e.pool]).map fun front =>
    .ofHops 0 [hop front, (e.exchange, e.pool)] [wrapped, e.tokenIn, e.tokenOut]

/-- The sandwiches of some events. -/
def sandwiches (events : List SwapEvent) (index : PoolIndex) (wrapped : Address) : List Path :=
  (events.filterMap fun e => routeTo e index wrapped).filter Path.isValid

end PathFinder
end Searcher
