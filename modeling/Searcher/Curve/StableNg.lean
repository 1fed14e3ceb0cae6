/-
# Stableswap pools of the next generation

Every coin has a stored rate with eighteen decimals, the amplification is scaled by a hundred, and the fee rises off
the peg. A metapool has two coins, the second being shares of a base pool.
-/

import Searcher.Curve.BasePool

namespace Searcher
namespace Curve

/-- The state of a stableswap pool of the next generation. -/
structure StableNgState where
  info : Info
  amp : Nat
  /-- In units of `e10`. -/
  fee : Nat
  offpegMultiplier : Nat
  balances : List Nat
  rates : List Nat
  base : Option BasePool
deriving DecidableEq, Inhabited

namespace StableNgState

/-- What the amplification is multiplied by. -/
def ampScale : Nat := 100

/-- Balances multiplied by their rates. -/
def scaled (s : StableNgState) : Quote (List Nat) :=
  if s.rates.length ≠ s.balances.length then .error (.outOfBounds .rateCount)
  else (s.balances.zip s.rates).mapM fun (balance, rate) => do Checked.div (← Checked.mul rate balance) e18

/-- The stored rate of a coin, or the limit that its absence breaks. -/
def rate (s : StableNgState) (k : Nat) : Quote Nat :=
  match s.rates[k]? with
  | some r => .ok r
  | none => .error (.outOfBounds .storedRate)

/-- The new balance of coin `j`, and the scaled output, when the balance of coin `i` has become `x`. -/
def scaledOut (s : StableNgState) (xs : List Nat) (i j x : Nat) : Quote (Nat × Nat) := do
  let amp ← Checked.mul s.amp ampScale
  let d ← StableSwap.invariantNg xs amp ampScale
  let y ← StableSwap.balanceAt amp i j x xs d ampScale
  return (y, ← Checked.sub (← Checked.sub (xs.getD j 0) y) 1)

/-- The scaled output after the fee, which is that of the balances halfway through the swap. -/
def netOut (s : StableNgState) (xs : List Nat) (i j x : Nat) : Quote Nat := do
  let (y, out) ← s.scaledOut xs i j x
  let fee ← StableSwap.dynamicFee (← Checked.div (← Checked.add (xs.getD i 0) x) 2)
    (← Checked.div (← Checked.add (xs.getD j 0) y) 2) s.fee s.offpegMultiplier
  StableSwap.afterFee fee out

/-- A swap between the pool's own coins. -/
def swapOwn (s : StableNgState) (i j amountIn : Nat) : Quote Nat := do
  let n := s.balances.length
  if i = j ∨ n ≤ i ∨ n ≤ j then throw (.outOfBounds .coin)
  let rateIn ← s.rate i
  let rateOut ← s.rate j
  let xs ← s.scaled
  let x ← Checked.add (xs.getD i 0) (← Checked.div (← Checked.mul amountIn rateIn) e18)
  Checked.div (← Checked.mul (← s.netOut xs i j x) e18) rateOut

/-- A swap through the base pool: index 0 is the metapool's coin, the others are coins of the base. -/
def swapUnderlying (s : StableNgState) (i j amountIn : Nat) : Quote Nat := do
  let some base := s.base | throw (.outOfBounds .baseState)
  if s.balances.length ≠ 2 then throw (.outOfBounds .metapoolCoins)
  let count := 1 + base.balances.length
  if i = j ∨ count ≤ i ∨ count ≤ j then throw (.outOfBounds .underlyingCoin)
  let ownRate ← s.rate 0
  let shareRate ← s.rate 1
  let xs ← s.scaled
  if i = 0 then
    let x ← Checked.add (xs.getD 0 0) (← Checked.div (← Checked.mul amountIn ownRate) e18)
    let out ← s.netOut xs 0 1 x
    return (← base.withdraw (← Checked.div (← Checked.mul out e18) shareRate) (j - 1)).paid
  else if j = 0 then
    let amounts := (List.replicate base.balances.length 0).set (i - 1) amountIn
    let value ← Checked.div (← Checked.mul (← base.shares amounts true) shareRate) e18
    let x ← Checked.add value (xs.getD 1 0)
    Checked.div (← Checked.mul (← s.netOut xs 1 0 x) e18) ownRate
  else base.swap (i - 1) (j - 1) amountIn

/-- Whether the token in a list is a coin of the pool itself. -/
def ownCoin (s : StableNgState) (tokens : List Address) (i : Nat) : Bool :=
  (tokens[i]?).any s.info.hasCoin

/-- What `amountIn` of `tokens[i]` pays in `tokens[j]`. -/
def swap (s : StableNgState) (tokens : List Address) (i j amountIn : Nat) : Quote Nat :=
  if s.info.coins.isEmpty || (s.ownCoin tokens i && s.ownCoin tokens j) then s.swapOwn i j amountIn
  else s.swapUnderlying i j amountIn

end StableNgState
end Curve
end Searcher
