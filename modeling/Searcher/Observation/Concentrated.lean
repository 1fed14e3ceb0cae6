/-
# Observing concentrated pools

The price, the tick and the fee are told in two ways: by pools of Thena Fusion all at once, by all others the fee apart.
-/

import Searcher.Observation.Question
import Searcher.Pool

namespace Searcher
namespace Concentrated

/-- What is asked about a pool of an exchange. -/
def questions (pool : Address) (exchange : Exchange) : List Question :=
  [.ask pool (.token 0) "token0()", .ask pool (.token 1) "token1()", .ask pool .factory "factory()",
    .ask pool .liquidity "liquidity()", .ask pool .tickSpacing "tickSpacing()"] ++
  if exchange = .thenaFusion then [.ask pool .globalState "globalState()"]
  else [.ask pool .slot0 "slot0()", .ask pool .fee "fee()"]

/-- The root of the price, the tick and the fee of a pool. -/
def position? (o : Observed) (pool : Address) (exchange : Exchange) : Option (Nat × Int × Nat) := do
  if exchange = .thenaFusion then
    let price :: tick :: fee :: _ ← o.words? pool .globalState 7 | none
    return (Abi.toUnsigned 160 price, Abi.toInt 24 tick, Abi.toUnsigned 16 fee)
  else
    let price :: tick :: _ ← o.words? pool .slot0 7 | none
    return (Abi.toUnsigned 160 price, Abi.toInt 24 tick, Abi.toUnsigned 24 (← o.word? pool .fee))

/-- The state of a pool. -/
def state? (o : Observed) (pool : Address) (exchange : Exchange) : Option PoolState := do
  let liquidity ← o.word? pool .liquidity
  let spacing := Abi.toInt 24 (← o.word? pool .tickSpacing)
  let (sqrtPrice, tick, fee) ← position? o pool exchange
  if spacing ≤ 0 then none
  return .concentrated ⟨sqrtPrice, tick, Abi.toUnsigned 128 liquidity, fee, spacing⟩

end Concentrated
end Searcher
