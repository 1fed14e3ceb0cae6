/-
# Constant-product pricing

A pair holds two reserves and takes the part `s` of every `n` that comes in, so that it keeps `n - s` of `n`. With
`keep = n - s` the output of a swap is

    floor (amountIn * keep * reserveOut / (reserveIn * n + amountIn * keep))

which leaves the product of the reserves no smaller than before.
-/

import Searcher.Checked

namespace Searcher

/-- A fee taken from the input of a swap: `taken` of every `base`. -/
structure Fee where
  base : Nat
  taken : Nat
deriving DecidableEq, Repr, Inhabited

namespace Fee

/-- Three in a thousand, which most pairs take. -/
def standard : Fee := ⟨1000, 3⟩

/-- A fee of part of the input, as opposed to all of it or more. -/
def ofParts? (base taken : Nat) : Option Fee :=
  if taken < base then some ⟨base, taken⟩ else none

/-- What stays of every `base` after the fee. -/
def keep (fee : Fee) : Nat := fee.base - fee.taken

end Fee

namespace ConstantProduct

/-- What a swap of `amountIn` pays out. -/
def amountOut (amountIn reserveIn reserveOut : Nat) (fee : Fee) : Quote Nat := do
  if reserveIn = 0 ∨ reserveOut = 0 then throw .insufficientLiquidity
  let kept ← Checked.mul amountIn fee.keep
  let numerator ← Checked.mul kept reserveOut
  let denominator ← Checked.add (← Checked.mul reserveIn fee.base) kept
  Checked.div numerator denominator

/-- The least input that pays out `amountOut`. The last unit is added without a check. -/
def amountIn (amountOut reserveIn reserveOut : Nat) (fee : Fee) : Quote Nat := do
  if reserveOut ≤ amountOut then throw .insufficientLiquidity
  let numerator ← Checked.mul (← Checked.mul reserveIn amountOut) fee.base
  let denominator ← Checked.mul (← Checked.sub reserveOut amountOut) fee.keep
  return wrap ((← Checked.div numerator denominator) + 1)

/-- The reserves after a swap, and what it paid out. -/
structure Swapped where
  reserveIn : Nat
  reserveOut : Nat
  amountOut : Nat
deriving DecidableEq, Repr

/-- Swaps `amountIn` into the pair. -/
def swap (amountIn reserveIn reserveOut : Nat) (fee : Fee) : Quote Swapped := do
  let out ← amountOut amountIn reserveIn reserveOut fee
  return ⟨← Checked.add reserveIn amountIn, ← Checked.sub reserveOut out, out⟩

/-- The input that lowers the price by `bps` of ten thousand, fees aside. The price after an input of `dx` is
`reserveOut * reserveIn / (reserveIn + dx) ^ 2`, so `dx = reserveIn * (1 / sqrt (1 - bps / 10000) - 1)`; the
inverse root is taken with eighteen decimals. -/
def amountInForSlippage (reserveIn bps : Nat) : Quote Nat := do
  if bps = 0 ∨ 10000 ≤ bps then throw (.outOfBounds .slippage)
  let square ← Checked.div (← Checked.mul (10 ^ 36) 10000) (10000 - bps)
  let excess ← Checked.sub (Root.isqrt square) e18
  Checked.div (← Checked.mul reserveIn excess) e18

end ConstantProduct
end Searcher
