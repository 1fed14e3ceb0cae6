/-
# Why a quote fails

A quote stands for what a pool's contract would do, and a contract reverts on overflow, on a division by zero and on
values outside its limits. Here each of these is an error value, and a hop that fails is skipped by its caller.
-/

import Searcher.Address

namespace Searcher

/-- The limit that a value broke. -/
inductive Limit where
  /-- A difference would be negative. -/
  | subtraction
  /-- A tick beyond the largest one. -/
  | tick
  /-- A square-root price outside the range of ticks. -/
  | sqrtPrice
  /-- A tick spacing that is not positive. -/
  | tickSpacing
  /-- The price already stands at the end of its range. -/
  | priceAtLimit
  /-- More liquidity leaves at a tick than is active. -/
  | liquidity
  /-- A slippage of nothing or of everything. -/
  | slippage
  /-- No precision is known for a coin of a base pool. -/
  | basePoolPrecision
  /-- A coin index outside a base pool. -/
  | basePoolCoin
  /-- A coin index outside the base pool of a metapool. -/
  | baseCoin
  /-- A coin index outside a pool. -/
  | coin
  /-- The largest balance of a cryptoswap pool is outside its range. -/
  | largestBalance
  /-- A balance of a cryptoswap pool is too small beside the largest. -/
  | balanceRatio
  /-- A pool without a balance. -/
  | emptyPool
  /-- The square root of a negative number. -/
  | negativeRoot
  /-- The new balance of a cryptoswap coin is outside its range. -/
  | newBalance
  /-- The parameter `gamma` of a cryptoswap pool. -/
  | gamma
  /-- The amplification of a cryptoswap pool. -/
  | amplification
  /-- The invariant of a cryptoswap pool. -/
  | invariant
  /-- Rates and balances differ in number. -/
  | rateCount
  /-- No stored rate for a coin. -/
  | storedRate
  /-- A metapool whose base pool was not loaded. -/
  | baseState
  /-- Underlying swaps of a pool of more than two coins. -/
  | metapoolCoins
  /-- An underlying coin index. -/
  | underlyingCoin
  /-- The description is not of a legacy stableswap pool. -/
  | notLegacy
  /-- No precision is known for a coin. -/
  | precision
  /-- The pool has no scale for its amplification. -/
  | noScale
  /-- No price per share for a coin. -/
  | pricePerShare
  /-- No rate multiplier for a coin. -/
  | rateMultiplier
  /-- No lending rate for a coin. -/
  | lendingRate
  /-- A pool state of another family than its exchange. -/
  | family
deriving DecidableEq, Repr

/-- What a message says about the limit. -/
def Limit.text : Limit → String
  | subtraction => "subtraction underflow"
  | tick => "tick out of range"
  | sqrtPrice => "sqrt price out of range"
  | tickSpacing => "tick spacing"
  | priceAtLimit => "price already at limit"
  | liquidity => "liquidity underflow"
  | slippage => "slippage must be within (0, 10000) bps"
  | basePoolPrecision => "base pool precision"
  | basePoolCoin => "base pool coin index"
  | baseCoin => "base coin index"
  | coin => "coin index"
  | largestBalance => "unsafe values x[0]"
  | balanceRatio => "unsafe values x[i]"
  | emptyPool => "empty pool"
  | negativeRoot => "negative root"
  | newBalance => "unsafe value for y"
  | gamma => "unsafe values gamma"
  | amplification => "unsafe values A"
  | invariant => "unsafe values D"
  | rateCount => "rates and balances differ in length"
  | storedRate => "stored rate index"
  | baseState => "metapool without base pool state"
  | metapoolCoins => "underlying swaps need a two-coin metapool"
  | underlyingCoin => "underlying coin index"
  | notLegacy => "not a legacy stableswap pool"
  | precision => "precision index"
  | noScale => "pool has no A precision"
  | pricePerShare => "price per share index"
  | rateMultiplier => "rate multiplier index"
  | lendingRate => "lending rate index"
  | family => "pool state does not match exchange family"

/-- Why a quote fails. -/
inductive QuoteError where
  /-- A Newton iteration used up its rounds. -/
  | noConvergence
  | divisionByZero
  /-- A result does not fit into 256 bits. -/
  | overflow
  | outOfBounds (limit : Limit)
  /-- The swap is not over after this many ticks. -/
  | tickBudgetExceeded (ticks : Nat)
  /-- The pool does not trade the first token for the second. -/
  | unsupportedPair (tokenIn tokenOut : Address)
  | insufficientLiquidity
  /-- The state of a pool could not be read. -/
  | fetch (reason : String)
  /-- A path names a pool that was not loaded. -/
  | unknownPool (pool : Address)
  /-- A word of the tick bitmap is absent from the cache, or older than asked for. It can be loaded, and the
  quote tried again. -/
  | missingTickWord (pool : Address) (word : Int)
deriving DecidableEq

/-- The text of the error. -/
def QuoteError.message : QuoteError → String
  | noConvergence => "newton iteration did not converge"
  | divisionByZero => "division by zero"
  | overflow => "arithmetic overflow"
  | outOfBounds limit => "value out of bounds: " ++ limit.text
  | tickBudgetExceeded ticks => s!"tick crossing budget exceeded after {ticks} ticks"
  | unsupportedPair tokenIn tokenOut =>
    "pool does not trade " ++ tokenIn.checksummed ++ " -> " ++ tokenOut.checksummed
  | insufficientLiquidity => "insufficient liquidity"
  | fetch reason => "state fetch failed: " ++ reason
  | unknownPool pool => "pool " ++ pool.checksummed ++ " is not loaded"
  | missingTickWord pool word => s!"tick word {word} of " ++ pool.checksummed ++ " not loaded"

/-- The outcome of a computation on pool values. -/
abbrev Quote := Except QuoteError

end Searcher
