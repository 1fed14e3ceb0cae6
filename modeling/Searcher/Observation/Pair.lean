/-
# Observing pairs

A pair tells its tokens, its reserves and the factory it comes from. Its fee is known from the factory: it is fixed, or
told by the pair, or told by the factory for each pair. A pair that tells no factory has the fee of the first factory
of its exchange.
-/

import Searcher.Factory
import Searcher.Observation.Question
import Searcher.Pool

namespace Searcher
namespace Pair

/-- What is asked of every pair. -/
def ownQuestions (pair : Address) : List Question :=
  [.ask pair (.token 0) "token0()", .ask pair (.token 1) "token1()", .ask pair .factory "factory()",
    .ask pair .reserves "getReserves()", .ask pair .swapFee "swapFee()"]

/-- Whether a factory tells the fee of each pair. -/
def tellsFees (f : Factory) : Bool :=
  match f.fee with
  | .factory _ => true
  | _ => false

/-- What the factories of an exchange are asked about a pair. -/
def factoryQuestions (pair : Address) (exchange : Exchange) : List Question :=
  (Factory.all.filter fun f => f.exchange = exchange ∧ tellsFees f).map fun f =>
    .ask f.address .pairFees "getPairFees(address)" [pair.toNat]

/-- What is asked about a pair of an exchange. -/
def questions (pair : Address) (exchange : Exchange) : List Question :=
  ownQuestions pair ++ factoryQuestions pair exchange

/-- Where the fee of a pair comes from. -/
def feeSource (exchange : Exchange) : (factory : Option Address) → FeeSource
  | some f => Factory.feeSource f
  | none => ((Factory.all.find? fun f => f.exchange = exchange).map (·.fee)).getD .standard

/-- The fee of a pair. -/
def fee? (o : Observed) (pair : Address) (exchange : Exchange) : Option Fee :=
  let factory := o.address? pair .factory
  match feeSource exchange factory with
  | .fixed fee => some fee
  | .pair base => do Fee.ofParts? base (Abi.toUnsigned 32 (← o.word? pair .swapFee))
  | .factory base => do Fee.ofParts? base (← o.count? (← factory) .pairFees)

/-- The state of a pair. -/
def state? (o : Observed) (pair : Address) (exchange : Exchange) : Option PoolState := do
  let [reserve0, reserve1, _] ← o.words? pair .reserves 3 | none
  return .constantProduct (Abi.toUnsigned 112 reserve0) (Abi.toUnsigned 112 reserve1) (← fee? o pair exchange)

end Pair
end Searcher
