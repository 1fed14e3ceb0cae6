/-
# Finding pools

The pools of two tokens are found by asking all known factories, and in the table of Curve pools. A factory that knows
no pool answers with the zero address.

The value of a token in the wrapped native token is that at the first pool of both, a pair before a concentrated pool.
-/

import Searcher.Observation.Pools
import Searcher.Price

namespace Searcher
namespace Factory

/-- Asks a factory for its pools of two tokens. -/
def questions (f : Factory) (a b : Address) : List Question :=
  let pair := [a.toNat, b.toNat]
  match f.lookup with
  | .pair => [.ask f.address (.lookup 0) "getPair(address,address)" pair]
  | .pairOfKind => [0, 1].map fun k => .ask f.address (.lookup k) "getPair(address,address,bool)" (pair ++ [k])
  | .poolOfFee => feeTiers.map fun fee => .ask f.address (.lookup fee) "getPool(address,address,uint24)" (pair ++ [fee])
  | .poolByPair => [.ask f.address (.lookup 0) "poolByPair(address,address)" pair]

/-- The pools that a factory has told, of the numbers it was asked for. -/
def told (f : Factory) (a b : Address) (o : Observed) : List PoolSpec :=
  ((f.questions a b).filterMap fun q => o.address? q.key.contract q.key.field).filterMap fun pool =>
    if pool.isZero then none else some ⟨pool, f.exchange⟩

end Factory

/-- What an account holds of a token. -/
structure Holding where
  holder : Address
  token : Address
deriving DecidableEq

/-- Whether a holding stands before another: holders are in order, and the tokens of a holder. -/
def Holding.precedes (x y : Holding) : Bool :=
  x.holder.toNat < y.holder.toNat ∨ (x.holder = y.holder ∧ x.token.toNat ≤ y.token.toNat)

namespace ChainReader

variable {σ : Type}

/-- The pools that trade two tokens. -/
def findPools (reader : ChainReader σ) (a b : Address) : Reading σ (List PoolSpec) := do
  let o ← reader.observe (Factory.all.flatMap (·.questions a b)) none
  return Factory.all.flatMap (·.told a b o) ++
    (Curve.poolsFor a b).map fun info => ⟨info.address, info.kind.exchange⟩

/-- The balances that were told, in order. -/
def tokenBalances (reader : ChainReader σ) (holdings : List Holding) (block : Option Nat) :
    Reading σ (List (Holding × Nat)) := do
  let o ← reader.observe (holdings.map fun h =>
    .ask h.token (.balanceOf h.holder) "balanceOf(address)" [h.holder.toNat]) block
  return (holdings.eraseDups.mergeSort Holding.precedes).filterMap fun h =>
    (o.word? h.token (.balanceOf h.holder)).map (h, ·)

/-- The pools that tell the price of a token, at most one of each kind. -/
def referencePools (specs : List PoolSpec) : List PoolSpec :=
  [Exchange.pancakeswapV2, .pancakeswapV3].filterMap fun e => specs.find? (·.exchange = e)

/-- The value of an amount of a token in the wrapped native token. -/
def tokenValue (reader : ChainReader σ) (amount : Nat) (token wrapped : Address) (block : Option Nat) :
    Reading σ Nat := do
  if token = wrapped ∨ amount = 0 then return amount
  let specs ← reader.findPools wrapped token
  let pools ← reader.loadPools (referencePools specs) block
  match pools.findSome? (Price.nativeValue amount token wrapped) with
  | some value => return value
  | none => throw (.noReferencePool token)

end ChainReader
end Searcher
