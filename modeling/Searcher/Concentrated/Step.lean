/-
# A swap between two ticks

While the price stays between two ticks the liquidity `L` does not change, and a swap moves the root of the price from
`a` to `b` against amounts of the two tokens:

| token | exact amount | rounded |
| --- | --- | --- |
| first | `L * (b - a) / (a * b)` | `amount0` |
| second | `L * (b - a)` | `amount1` |

All roots have 96 binary places. Rounding is against the trader: up for what comes in, down for what goes out.
-/

import Searcher.Checked

namespace Searcher
namespace Concentrated

/-- One, with 96 binary places. -/
def q96 : Nat := 2 ^ 96

/-- The parts of the input in which fees are counted. -/
def feeParts : Nat := 1000000

/-- The amount of the first token between two roots. -/
def amount0 (a b liquidity : Nat) (up : Bool) : Quote Nat := do
  let lower := min a b
  let upper := max a b
  if lower = 0 then throw .divisionByZero
  let numerator := liquidity * q96
  if up then Checked.divUp (← Checked.fullMulDivUp numerator (upper - lower) upper) lower
  else Checked.div (← Checked.fullMulDiv numerator (upper - lower) upper) lower

/-- The amount of the second token between two roots. -/
def amount1 (a b liquidity : Nat) (up : Bool) : Quote Nat :=
  let width := max a b - min a b
  if up then Checked.fullMulDivUp liquidity width q96 else Checked.fullMulDiv liquidity width q96

/-- The root after an input of the first token, which lowers it, rounded up. Where the exact formula leaves 256 bits
a coarser one with the same rounding stands in. -/
def sqrtPriceAfter0 (root liquidity amount : Nat) : Quote Nat := do
  if amount = 0 then return root
  let numerator := liquidity * q96
  if amount * root < wordSize ∧ numerator + amount * root < wordSize then
    Checked.fullMulDivUp numerator root (numerator + amount * root)
  else
    Checked.divUp numerator (← Checked.add (← Checked.div numerator root) amount)

/-- The root after an input of the second token, which raises it, rounded down. -/
def sqrtPriceAfter1 (root liquidity amount : Nat) : Quote Nat := do
  Checked.add root (← Checked.fullMulDiv amount q96 liquidity)

/-- The root after an input; `zeroForOne` tells that it is of the first token. -/
def sqrtPriceAfter (root liquidity amountIn : Nat) (zeroForOne : Bool) : Quote Nat :=
  if root = 0 ∨ liquidity = 0 then .error .insufficientLiquidity
  else if zeroForOne then sqrtPriceAfter0 root liquidity amountIn
  else sqrtPriceAfter1 root liquidity amountIn

/-- What a swap takes in while the root goes from `a` to `b`. -/
def taken (zeroForOne : Bool) (a b liquidity : Nat) : Quote Nat :=
  if zeroForOne then amount0 b a liquidity true else amount1 a b liquidity true

/-- What a swap pays out while the root goes from `a` to `b`. -/
def paid (zeroForOne : Bool) (a b liquidity : Nat) : Quote Nat :=
  if zeroForOne then amount1 b a liquidity false else amount0 a b liquidity false

/-- What one step of a swap did. -/
structure Step where
  sqrtPrice : Nat
  amountIn : Nat
  amountOut : Nat
  fee : Nat
deriving DecidableEq, Repr

/-- Swaps as much of `remaining` as fits before the root reaches `target`. Whatever the step leaves of the input when
it stops early is taken as its fee. -/
def step (current target liquidity remaining feePips : Nat) : Quote Step := do
  let zeroForOne := decide (target ≤ current)
  let kept ← Checked.sub feeParts feePips
  let usable ← Checked.fullMulDiv remaining kept feeParts
  let toTarget ← taken zeroForOne current target liquidity
  let next ← (if toTarget ≤ usable then pure target else sqrtPriceAfter current liquidity usable zeroForOne)
  let amountIn ← (if next = target then pure toTarget else taken zeroForOne current next liquidity)
  let amountOut ← paid zeroForOne current next liquidity
  let fee ← (if next = target then Checked.fullMulDivUp amountIn feePips kept else Checked.sub remaining amountIn)
  return ⟨next, amountIn, amountOut, fee⟩

end Concentrated
end Searcher
