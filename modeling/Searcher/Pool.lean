/-
# Pools

A pool lists tokens, stands on an exchange, and has a state of the exchange's pricing family. Its quote is what its
contract would pay for an input at that state. Concentrated pools read ticks while they are quoted, from a source that
the caller names for each pool.
-/

import Searcher.ConstantProduct
import Searcher.Concentrated.Quote
import Searcher.Curve.Stable
import Searcher.Curve.StableNg
import Searcher.Curve.TriCryptoNg

namespace Searcher

/-- The state of a pool of each family. -/
inductive PoolState where
  | constantProduct (reserve0 reserve1 : Nat) (fee : Fee)
  | concentrated (state : ConcentratedState)
  | stableSwap (state : Curve.StableState)
  | stableSwapNg (state : Curve.StableNgState)
  | cryptoSwap (state : Curve.CryptoState)
  | triCrypto (state : Curve.TriCryptoState)
  | triCryptoNg (state : Curve.TriCryptoNgState)
deriving DecidableEq, Inhabited

/-- The family of a state. -/
def PoolState.family : PoolState → Family
  | constantProduct .. => .constantProduct
  | concentrated _ => .concentrated
  | stableSwap _ => .stableSwap
  | stableSwapNg _ => .stableSwapNg
  | cryptoSwap _ => .cryptoSwap
  | triCrypto _ => .triCrypto
  | triCryptoNg _ => .triCryptoNg

/-- A pool with its state at some block. -/
structure Pool where
  address : Address
  exchange : Exchange
  /-- The tokens in the order of their indices. -/
  tokens : List Address
  state : PoolState
deriving DecidableEq, Inhabited

namespace Pool

/-- A pool whose state has the family of its exchange. -/
def make (address : Address) (exchange : Exchange) (tokens : List Address) (state : PoolState) : Quote Pool :=
  if exchange.family = state.family then .ok ⟨address, exchange, tokens, state⟩
  else .error (.outOfBounds .family)

/-- The index of a token. -/
def indexOf? (pool : Pool) (token : Address) : Option Nat := pool.tokens.idxOf? token

/-- Whether the pool lists both tokens, and they differ. -/
def trades (pool : Pool) (tokenIn tokenOut : Address) : Bool :=
  tokenIn ≠ tokenOut ∧ (pool.indexOf? tokenIn).isSome ∧ (pool.indexOf? tokenOut).isSome

/-- What `amountIn` of the token with index `i` pays in the token with index `j`. -/
def quoteAt {σ : Type} (pool : Pool) (ticks : TickSource σ) (amountIn i j : Nat) : Ticking σ Nat :=
  match pool.state with
  | .constantProduct reserve0 reserve1 fee =>
    if i = 0 then Ticking.ofQuote (ConstantProduct.amountOut amountIn reserve0 reserve1 fee)
    else Ticking.ofQuote (ConstantProduct.amountOut amountIn reserve1 reserve0 fee)
  | .concentrated s => do return (← s.swap ticks amountIn (i = 0)).amountOut
  | .stableSwap s => Ticking.ofQuote (s.swap pool.tokens i j amountIn)
  | .stableSwapNg s => Ticking.ofQuote (s.swap pool.tokens i j amountIn)
  | .cryptoSwap s => Ticking.ofQuote (s.swap i j amountIn)
  | .triCrypto s => Ticking.ofQuote (s.swap i j amountIn)
  | .triCryptoNg s => Ticking.ofQuote (s.swap i j amountIn)

/-- What `amountIn` of one token pays in another. -/
def quote {σ : Type} (pool : Pool) (ticks : Address → TickSource σ) (amountIn : Nat) (tokenIn tokenOut : Address) :
    Ticking σ Nat :=
  match pool.indexOf? tokenIn, pool.indexOf? tokenOut with
  | some i, some j =>
    if i ≠ j then pool.quoteAt (ticks pool.address) amountIn i j else throw (.unsupportedPair tokenIn tokenOut)
  | _, _ => throw (.unsupportedPair tokenIn tokenOut)

end Pool
end Searcher
