/-
# Swap events

What a transaction did at one pool: how much of one token it paid in, and how much of another it took out.
-/

import Searcher.Exchange
import Searcher.Token

namespace Searcher

/-- A swap at one pool. -/
structure SwapEvent where
  exchange : Exchange
  pool : Address
  tokenIn : Address
  tokenOut : Address
  amountIn : Nat
  amountOut : Nat
deriving DecidableEq, Inhabited

namespace SwapEvent

/-- Whether all parts are present and the tokens differ. -/
def isValid (e : SwapEvent) : Bool :=
  ¬ e.pool.isZero ∧ ¬ e.tokenIn.isZero ∧ ¬ e.tokenOut.isZero ∧ e.tokenIn ≠ e.tokenOut ∧
    e.amountIn ≠ 0 ∧ e.amountOut ≠ 0

/-- Whether the token is one of the two. -/
def touches (e : SwapEvent) (token : Address) : Bool := e.tokenIn = token ∨ e.tokenOut = token

/-- The event for people. -/
def render (e : SwapEvent) : String :=
  "[" ++ e.exchange.name ++ "] " ++ e.pool.checksummed ++ " " ++ toString e.amountIn ++ " " ++ Token.symbol e.tokenIn ++
    " -> " ++ toString e.amountOut ++ " " ++ Token.symbol e.tokenOut

end SwapEvent
end Searcher
