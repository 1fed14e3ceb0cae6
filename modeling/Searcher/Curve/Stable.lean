/-
# Stableswap pools of the first generation

All of them trade on one invariant. They differ in how they bring the balances of their coins to a common scale, and
in whether the fee is taken before or after the output is scaled back.

A pool may list two sets of tokens: its own coins, which may be lent out, and the underlying ones. Which of the two a
swap means is read off the tokens. A metapool swaps underlying tokens through its base pool.
-/

import Searcher.Curve.BasePool

namespace Searcher
namespace Curve

/-- The exchange rate of a coin that is lent out, with the rate at which it grows. -/
structure LendingRate where
  stored : Nat
  perBlock : Nat
  accrualBlock : Nat
deriving DecidableEq, Repr, Inhabited

/-- The rate accrued to a block. -/
def LendingRate.at (r : LendingRate) (block : Nat) : Quote Nat := do
  let elapsed ← Checked.sub block r.accrualBlock
  let accrued ← Checked.div (← Checked.mul (← Checked.mul r.stored r.perBlock) elapsed) e18
  Checked.add r.stored accrued

/-- What a metapool knows of its base pool. -/
structure MetaView where
  base : BasePool
  /-- When the metapool last read the virtual price. -/
  cachedAt : Nat
  cachedVirtualPrice : Nat
  liveVirtualPrice : Nat
deriving DecidableEq, Inhabited

/-- The state of a stableswap pool of the first generation. -/
structure StableState where
  info : Info
  amp : Nat
  /-- In units of `e10`. -/
  fee : Nat
  balances : List Nat
  offpegMultiplier : Nat := 0
  lendingRates : List LendingRate := []
  pricesPerShare : List Nat := []
  block : Nat := 0
  timestamp : Nat := 0
  metaView : Option MetaView := none
deriving DecidableEq, Inhabited

namespace StableState

/-- How the pool scales its balances. A pool of another kind has no scaling. -/
def scaling (s : StableState) : Quote Scaling :=
  match s.info.kind with
  | .stable scaling => .ok scaling
  | _ => .error (.outOfBounds .notLegacy)

/-- The entry for coin `k` of a list, or the limit that its absence breaks. -/
def entry {α : Type} (xs : List α) (k : Nat) (limit : Limit) : Quote α :=
  match xs[k]? with
  | some x => .ok x
  | none => .error (.outOfBounds limit)

/-- The precision of a coin. -/
def precision (s : StableState) (k : Nat) : Quote Nat := entry s.info.precisions k .precision

/-- The exchange rate of a coin, accrued to the block of the state. -/
def lendingRate (s : StableState) (k : Nat) : Quote Nat := do
  (← entry s.lendingRates k .lendingRate).at s.block

/-- What the amplification is scaled by in the pools that scale it. -/
def ampScale (s : StableState) : Quote Nat :=
  match s.info.ampScale with
  | some m => .ok m
  | none => .error (.outOfBounds .noScale)

/-- Fails unless `i` and `j` are different coins of the pool. -/
def checkCoins (s : StableState) (i j : Nat) : Quote Unit :=
  if i = j ∨ s.balances.length ≤ i ∨ s.balances.length ≤ j then .error (.outOfBounds .coin) else .ok ()

/-- Balances multiplied by the precisions of their coins. -/
def byPrecision (s : StableState) : Quote (List Nat) :=
  s.balances.zipIdx.mapM fun (balance, k) => do Checked.mul (← s.precision k) balance

/-- Balances multiplied by rates with eighteen decimals. -/
def byRate (s : StableState) (rates : List Nat) : Quote (List Nat) :=
  (s.balances.zip rates).mapM fun (balance, rate) => do Checked.div (← Checked.mul rate balance) e18

/-- What an input of coin `i` raises its scaled balance to, the input being scaled by a rate. -/
def raisedByRate (xs rates : List Nat) (i amountIn : Nat) : Quote Nat := do
  Checked.add (xs.getD i 0) (← Checked.div (← Checked.mul amountIn (rates.getD i 0)) e18)

/-- What an input of coin `i` raises its scaled balance to, the input being scaled by its precision. -/
def raisedByPrecision (s : StableState) (xs : List Nat) (i amountIn : Nat) : Quote Nat := do
  Checked.add (xs.getD i 0) (← Checked.mul amountIn (← s.precision i))

/-- The scaled output when the balance of coin `i` has become `x`, and the new balance of coin `j`. -/
def scaledOut (s : StableState) (amp scale i j x : Nat) (xs : List Nat) (plusOne : Bool) : Quote (Nat × Nat) := do
  let y ← StableSwap.balance amp i j x xs scale plusOne
  return (← Checked.sub (← Checked.sub (xs.getD j 0) y) s.info.roundingUnit, y)

/-- A swap over balances that are not scaled. -/
def swapBalances (s : StableState) (i j amountIn : Nat) : Quote Nat := do
  s.checkCoins i j
  let xs := s.balances
  let x ← Checked.add (xs.getD i 0) amountIn
  let (out, _) ← s.scaledOut s.amp 1 i j x xs s.info.plusOne
  StableSwap.afterFee s.fee out

/-- A swap over balances scaled by precisions. The output is scaled back before the fee is taken. -/
def swapRates (s : StableState) (i j amountIn : Nat) : Quote Nat := do
  s.checkCoins i j
  let xs ← s.byPrecision
  let x ← s.raisedByPrecision xs i amountIn
  let (out, _) ← s.scaledOut s.amp 1 i j x xs false
  let out ← Checked.div out (← s.precision j)
  StableSwap.afterFee s.fee out

/-- A swap over balances scaled by precisions, with a scaled amplification and a fee that rises off the peg. -/
def swapAave (s : StableState) (i j amountIn : Nat) : Quote Nat := do
  s.checkCoins i j
  let scale ← s.ampScale
  let xs ← s.byPrecision
  let x ← s.raisedByPrecision xs i amountIn
  let (out, y) ← s.scaledOut (← Checked.mul s.amp scale) scale i j x xs false
  let out ← Checked.div out (← s.precision j)
  let fee ← StableSwap.dynamicFee (← Checked.div (← Checked.add (xs.getD i 0) x) 2)
    (← Checked.div (← Checked.add (xs.getD j 0) y) 2) s.fee s.offpegMultiplier
  StableSwap.afterFee fee out

/-- A swap over balances scaled by accrued rates, of own coins or of underlying ones. -/
def swapStoredRates (s : StableState) (own : Bool) (i j amountIn : Nat) : Quote Nat := do
  s.checkCoins i j
  let scale ← s.ampScale
  let rates ← (List.range s.balances.length).mapM fun k => do
    let rate ← s.lendingRate k
    Checked.mul rate (← s.precision k)
  let xs ← s.byRate rates
  let amp ← Checked.mul s.amp scale
  if own then
    let x ← raisedByRate xs rates i amountIn
    let (out, _) ← s.scaledOut amp scale i j x xs false
    Checked.div (← Checked.mul (← StableSwap.afterFee s.fee out) e18) (rates.getD j 0)
  else
    let x ← s.raisedByPrecision xs i amountIn
    let (out, _) ← s.scaledOut amp scale i j x xs false
    Checked.div (← StableSwap.afterFee s.fee out) (← s.precision j)

/-- The rate of coin `k` when only some coins are lent out. -/
def lentRate (s : StableState) (perShare : Bool) (k : Nat) : Quote Nat :=
  if ¬ s.info.lending.getD k false then .ok e18
  else if perShare then entry s.pricesPerShare k .pricePerShare
  else s.lendingRate k

/-- A swap over balances scaled by the rates of those coins that are lent out, of own coins or of underlying ones. -/
def swapLending (s : StableState) (perShare own : Bool) (i j amountIn : Nat) : Quote Nat := do
  s.checkCoins i j
  let rates ← (List.range s.balances.length).mapM fun k => do
    let rate ← s.lentRate perShare k
    Checked.mul (← s.precision k) rate
  let xs ← s.byRate rates
  let out ← if own then do
      let x ← raisedByRate xs rates i amountIn
      let (out, _) ← s.scaledOut s.amp 1 i j x xs false
      Checked.div (← Checked.mul out e18) (rates.getD j 0)
    else do
      let x ← s.raisedByPrecision xs i amountIn
      let (out, _) ← s.scaledOut s.amp 1 i j x xs false
      Checked.div out (← s.precision j)
  StableSwap.afterFee s.fee out

/-- A swap over balances scaled by a fixed rate for each coin. -/
def swapRateMultipliers (s : StableState) (i j amountIn : Nat) : Quote Nat := do
  s.checkCoins i j
  let rates ← (List.range s.balances.length).mapM fun k => entry s.info.rateMultipliers k .rateMultiplier
  let xs ← s.byRate rates
  let x ← raisedByRate xs rates i amountIn
  let (out, _) ← s.scaledOut s.amp 1 i j x xs false
  Checked.div (← Checked.mul (← StableSwap.afterFee s.fee out) e18) (rates.getD j 0)

/-- The view of the base pool, which a metapool is loaded with. -/
def view (s : StableState) : Quote MetaView :=
  match s.metaView with
  | some v => .ok v
  | none => .error (.outOfBounds .baseState)

/-- The virtual price that the metapool uses: the cached one until it expires. -/
def virtualPrice (s : StableState) : Quote Nat := do
  let v ← s.view
  let expires := min (v.cachedAt + s.info.baseCacheExpires) (2 ^ 64 - 1)
  return if expires < s.timestamp then v.liveVirtualPrice else v.cachedVirtualPrice

/-- The rates of a metapool: precisions, and the virtual price for the last coin. -/
def metaRates (s : StableState) (virtualPrice : Nat) : Quote (List Nat) := do
  let rates ← (List.range s.balances.length).mapM fun k => do Checked.mul (← s.precision k) e18
  return rates.set (rates.length - 1) virtualPrice

/-- A swap between a metapool's own coins. -/
def swapMeta (s : StableState) (i j amountIn : Nat) : Quote Nat := do
  s.checkCoins i j
  let scale ← s.ampScale
  let rates ← s.metaRates (← s.virtualPrice)
  let xs ← s.byRate rates
  let x ← raisedByRate xs rates i amountIn
  let (out, _) ← s.scaledOut (← Checked.mul s.amp scale) scale i j x xs false
  Checked.div (← Checked.mul (← StableSwap.afterFee s.fee out) e18) (rates.getD j 0)

/-- The shares that a deposit of one coin is worth, less half the fee of the base pool. -/
def sharesFor (base : BasePool) (k amountIn virtualPrice : Nat) : Quote Nat := do
  let amounts := (List.replicate base.balances.length 0).set k amountIn
  let value ← Checked.div (← Checked.mul (← base.shares amounts true) virtualPrice) e18
  Checked.sub value (← Checked.div (← Checked.mul value base.fee) (← Checked.mul 2 e10))

/-- A swap through the base pool. Indices count the metapool's own coins but the last first, then the base's. -/
def swapUnderlying (s : StableState) (i j amountIn : Nat) : Quote Nat := do
  let v ← s.view
  if s.balances.length = 0 then throw (.outOfBounds .emptyPool)
  let last := s.balances.length - 1
  let count := last + v.base.balances.length
  if i = j ∨ count ≤ i ∨ count ≤ j then throw (.outOfBounds .underlyingCoin)
  let price ← s.virtualPrice
  let xs ← s.byRate (← s.metaRates price)
  if last ≤ i ∧ last ≤ j then v.base.swap (i - last) (j - last) amountIn
  else
    let x ← if i < last then s.raisedByPrecision xs i amountIn
      else do Checked.add (← sharesFor v.base (i - last) amountIn price) (xs.getD last 0)
    let scale ← s.ampScale
    let j' := min j last
    let (out, _) ← s.scaledOut (← Checked.mul s.amp scale) scale (min i last) j' x xs false
    let out ← StableSwap.afterFee s.fee out
    if j < last then Checked.div out (← s.precision j')
    else
      return (← v.base.withdraw (← Checked.div (← Checked.mul out e18) price) (j - last)).paid

/-- Whether the token in a list is a coin of the pool itself. -/
def ownCoin (s : StableState) (tokens : List Address) (i : Nat) : Bool :=
  (tokens[i]?).any s.info.hasCoin

/-- What `amountIn` of `tokens[i]` pays in `tokens[j]`. -/
def swap (s : StableState) (tokens : List Address) (i j amountIn : Nat) : Quote Nat := do
  let ownIn := s.ownCoin tokens i
  let ownOut := s.ownCoin tokens j
  match ← s.scaling with
  | .balances => s.swapBalances i j amountIn
  | .rates => s.swapRates i j amountIn
  | .aave => s.swapAave i j amountIn
  | .storedRates => s.swapStoredRates ownIn i j amountIn
  | .lending => s.swapLending false ownIn i j amountIn
  | .lendingPricePerShare => s.swapLending true (ownIn && ownOut) i j amountIn
  | .rateMultipliers => s.swapRateMultipliers i j amountIn
  | .baseVirtualPrice => if ownIn ∧ ownOut then s.swapMeta i j amountIn else s.swapUnderlying i j amountIn

end StableState
end Curve
end Searcher
