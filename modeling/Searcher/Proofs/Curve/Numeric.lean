/-
# Curve quotes fail by their numbers alone

The quotes of all five Curve families are made of checked operations, bounded iterations and range checks. None of them
reads anything, so none reports a pool or a word that is not there.
-/

import Searcher.Curve.Stable
import Searcher.Curve.StableNg
import Searcher.Curve.TriCryptoNg
import Searcher.Proofs.Quote.Numeric

namespace Searcher

open Quote

/-! ### Stableswap -/

namespace StableSwap

/-- The invariant of a stableswap pool is numeric if the product in its steps is. -/
@[simp] theorem numeric_invariantBy (product : Nat → Quote Nat) (xs : List Nat) (amp scale : Nat) :
    numeric (invariantBy product xs amp scale) = invariantBy (fun d => numeric (product d)) xs amp scale := by
  simp [invariantBy, sum, nextInvariant]

/-- The product is multiplied up coin by coin, with a division at each. -/
@[simp] theorem numeric_productByCoin (xs : List Nat) (n extra d : Nat) :
    numeric (productByCoin xs n extra d) = productByCoin xs n extra d := by
  simp [productByCoin]

/-- Or it is divided by the balances first, and by a power of their number at the end. -/
@[simp] theorem numeric_productAtOnce (xs : List Nat) (n d : Nat) :
    numeric (productAtOnce xs n d) = productAtOnce xs n d := by
  simp [productAtOnce]

/-- So the invariant of the first generation is numeric. -/
@[simp] theorem numeric_invariant (xs : List Nat) (amp scale : Nat) (plusOne : Bool) :
    numeric (invariant xs amp scale plusOne) = invariant xs amp scale plusOne := by
  simp [invariant]

/-- And that of the next. -/
@[simp] theorem numeric_invariantNg (xs : List Nat) (amp scale : Nat) :
    numeric (invariantNg xs amp scale) = invariantNg xs amp scale := by
  simp [invariantNg]

/-- One of Newton's steps for a balance is a quotient of checked sums. -/
@[simp] theorem numeric_nextBalance (b c d y : Nat) : numeric (nextBalance b c d y) = nextBalance b c d y := by
  simp [nextBalance]

/-- A balance that completes others to an invariant is what these steps settle at. -/
@[simp] theorem numeric_completing (amp n : Nat) (others : List Nat) (d scale : Nat) :
    numeric (completing amp n others d scale) = completing amp n others d scale := by
  simp [completing, solveBalance]

/-- The same where one of the balances is replaced first. -/
@[simp] theorem numeric_balanceAt (amp i j x : Nat) (xs : List Nat) (d scale : Nat) :
    numeric (balanceAt amp i j x xs d scale) = balanceAt amp i j x xs d scale := by
  simp [balanceAt]

/-- And where the invariant has to be found before. -/
@[simp] theorem numeric_balance (amp i j x : Nat) (xs : List Nat) (scale : Nat) (plusOne : Bool) :
    numeric (balance amp i j x xs scale plusOne) = balance amp i j x xs scale plusOne := by
  simp [balance]

/-- The balance of one coin at a given invariant, which a withdrawal asks for. -/
@[simp] theorem numeric_balanceOf (amp i : Nat) (xs : List Nat) (d : Nat) :
    numeric (balanceOf amp i xs d) = balanceOf amp i xs d := by
  simp [balanceOf]

/-- A fee that rises off the peg is a quotient of checked products. -/
@[simp] theorem numeric_dynamicFee (x y fee multiplier : Nat) :
    numeric (dynamicFee x y fee multiplier) = dynamicFee x y fee multiplier := by
  simp [dynamicFee]

/-- A fee is a part of the amount, over the fee denominator. -/
@[simp] theorem numeric_feeOf (fee amount : Nat) : numeric (feeOf fee amount) = feeOf fee amount := by
  simp [feeOf]

/-- What it leaves is a difference. -/
@[simp] theorem numeric_afterFee (fee amount : Nat) : numeric (afterFee fee amount) = afterFee fee amount := by
  simp [afterFee]

end StableSwap

namespace Curve

namespace BasePool

variable (p : BasePool)

/-- A coin without a precision is out of bounds, which is an error of numbers. -/
@[simp] theorem numeric_precision (i : Nat) : numeric (p.precision i) = p.precision i := by
  unfold precision
  split <;> rfl

/-- Scaled balances are checked products. -/
@[simp] theorem numeric_scaled (balances : List Nat) : numeric (p.scaled balances) = p.scaled balances := by
  simp [scaled]

/-- Balances after a deposit or a withdrawal are checked sums or differences. -/
@[simp] theorem numeric_changed (balances amounts : List Nat) (deposit : Bool) :
    numeric (changed balances amounts deposit) = changed balances amounts deposit := by
  simp only [changed, numeric_mapM]
  congr 1
  funext ⟨balance, i⟩
  cases amounts[i]? <;> simp

/-- Shares are the change of the invariant as a part of their supply. -/
@[simp] theorem numeric_shares (amounts : List Nat) (deposit : Bool) :
    numeric (p.shares amounts deposit) = p.shares amounts deposit := by
  simp [shares, invariantOf]

/-- A withdrawal in one coin is a difference of balances, less a fee. -/
@[simp] theorem numeric_withdraw (amount i : Nat) : numeric (p.withdraw amount i) = p.withdraw amount i := by
  simp [withdraw, reduced]

/-- A swap within the base pool is made of checked operations and a solved balance. -/
@[simp] theorem numeric_swap (i j amountIn : Nat) : numeric (p.swap i j amountIn) = p.swap i j amountIn := by
  simp [swap]

end BasePool

namespace StableState

variable (s : StableState)

/-- A pool that is not of a stableswap kind has no scaling. The error is one of numbers. -/
@[simp] theorem numeric_scaling : numeric s.scaling = s.scaling := by
  unfold scaling
  split <;> rfl

/-- An entry that a row lacks is out of bounds. -/
@[simp] theorem numeric_entry {α : Type} (xs : List α) (k : Nat) (limit : Limit) :
    numeric (entry xs k limit) = entry xs k limit := by
  unfold entry
  split <;> rfl

/-- A precision is such an entry. -/
@[simp] theorem numeric_precision (k : Nat) : numeric (s.precision k) = s.precision k := numeric_entry ..

/-- A rate that has accrued to the block is a checked sum. -/
@[simp] theorem numeric_lendingRate (k : Nat) : numeric (s.lendingRate k) = s.lendingRate k := by
  simp [lendingRate, LendingRate.at]

/-- A pool without a scale of its amplification has an error of numbers. -/
@[simp] theorem numeric_ampScale : numeric s.ampScale = s.ampScale := by
  unfold ampScale
  split <;> rfl

/-- Coins that are equal, or not the pool's, are out of bounds. -/
@[simp] theorem numeric_checkCoins (i j : Nat) : numeric (s.checkCoins i j) = s.checkCoins i j := by
  simp [checkCoins]

/-- Balances by precision are checked products. -/
@[simp] theorem numeric_byPrecision : numeric s.byPrecision = s.byPrecision := by
  simp [byPrecision]

/-- Balances by rate are checked quotients. -/
@[simp] theorem numeric_byRate (rates : List Nat) : numeric (s.byRate rates) = s.byRate rates := by
  simp [byRate]

/-- An input that is scaled by a rate is added to the balance with a check. -/
@[simp] theorem numeric_raisedByRate (xs rates : List Nat) (i amountIn : Nat) :
    numeric (raisedByRate xs rates i amountIn) = raisedByRate xs rates i amountIn := by
  simp [raisedByRate]

/-- So is one that is scaled by a precision. -/
@[simp] theorem numeric_raisedByPrecision (xs : List Nat) (i amountIn : Nat) :
    numeric (s.raisedByPrecision xs i amountIn) = s.raisedByPrecision xs i amountIn := by
  simp [raisedByPrecision]

/-- What a swap takes out of the scaled balances is a difference, after a solved balance. -/
@[simp] theorem numeric_scaledOut (amp scale i j x : Nat) (xs : List Nat) (plusOne : Bool) :
    numeric (s.scaledOut amp scale i j x xs plusOne) = s.scaledOut amp scale i j x xs plusOne := by
  simp [scaledOut]

/-- A rate of a coin that is lent out is an entry of one of two rows. -/
@[simp] theorem numeric_lentRate (perShare : Bool) (k : Nat) :
    numeric (s.lentRate perShare k) = s.lentRate perShare k := by
  simp [lentRate]

/-- A metapool that was loaded without its base pool is out of bounds. -/
@[simp] theorem numeric_view : numeric s.view = s.view := by
  unfold view
  split <;> rfl

/-- The virtual price is loaded with the pool, cached and live, so choosing between the two asks nothing. -/
@[simp] theorem numeric_virtualPrice : numeric s.virtualPrice = s.virtualPrice := by
  simp [virtualPrice]

/-- Rates of a metapool are its precisions, and the virtual price for the last coin. -/
@[simp] theorem numeric_metaRates (virtualPrice : Nat) :
    numeric (s.metaRates virtualPrice) = s.metaRates virtualPrice := by
  simp [metaRates]

/-- A swap through the base pool deposits, withdraws or swaps there. -/
@[simp] theorem numeric_swapUnderlying (i j amountIn : Nat) :
    numeric (s.swapUnderlying i j amountIn) = s.swapUnderlying i j amountIn := by
  simp [swapUnderlying, sharesFor]

/-- **A stableswap quote of the first generation fails by its numbers alone.** -/
@[simp] theorem numeric_swap (tokens : List Address) (i j amountIn : Nat) :
    numeric (s.swap tokens i j amountIn) = s.swap tokens i j amountIn := by
  simp only [swap, numeric_bind, numeric_scaling]
  congr 1
  funext scaling
  cases scaling <;>
    simp [swapBalances, swapRates, swapAave, swapStoredRates, swapLending, swapRateMultipliers, swapMeta]

end StableState

namespace StableNgState

variable (s : StableNgState)

/-- A rate is an entry of the row of rates. -/
@[simp] theorem numeric_rate (k : Nat) : numeric (s.rate k) = s.rate k := by
  unfold rate
  split <;> rfl

/-- Balances by rate are checked quotients, in the next generation too. -/
@[simp] theorem numeric_scaled : numeric s.scaled = s.scaled := by
  simp [scaled]

/-- What is paid after the fee off the peg is a difference. -/
@[simp] theorem numeric_netOut (xs : List Nat) (i j x : Nat) : numeric (s.netOut xs i j x) = s.netOut xs i j x := by
  simp [netOut, scaledOut]

/-- A swap through the base pool, in the next generation. A pool that has none is out of bounds. -/
@[simp] theorem numeric_swapUnderlying (i j amountIn : Nat) :
    numeric (s.swapUnderlying i j amountIn) = s.swapUnderlying i j amountIn := by
  unfold swapUnderlying
  cases s.base <;> simp

/-- **A stableswap quote of the next generation fails by its numbers alone.** -/
@[simp] theorem numeric_swap (tokens : List Address) (i j amountIn : Nat) :
    numeric (s.swap tokens i j amountIn) = s.swap tokens i j amountIn := by
  simp [swap, swapOwn]

end StableNgState
end Curve

/-! ### Cryptoswap -/

namespace Cryptoswap

/-- Bounds of the coefficients and of the invariant are errors of numbers. -/
@[simp] theorem numeric_checkWith (b : Bounds) (ann gamma d : Nat) :
    numeric (b.checkWith ann gamma d) = b.checkWith ann gamma d := by
  simp [Bounds.checkWith, Bounds.check]

/-- So are those of the share that a coin has of the invariant. -/
@[simp] theorem numeric_checkShare (x d least : Nat) : numeric (checkShare x d least) = checkShare x d least := by
  simp [checkShare]

/-- The distance of `gamma + 1` from `K0` is a checked sum. -/
@[simp] theorem numeric_gap (gamma k0 : Nat) : numeric (gap gamma k0) = gap gamma k0 := by
  simp [gap]

/-- The curvature is a row of checked quotients. -/
@[simp] theorem numeric_curvature (ann gamma d g : Nat) :
    numeric (curvature ann gamma d g) = curvature ann gamma d g := by
  simp [curvature]

/-- One round for a balance is made of checked operations. -/
@[simp] theorem numeric_balanceRound (s : BalanceSearch) (y : Nat) :
    numeric (balanceRound s y) = balanceRound s y := by
  simp [balanceRound]

/-- The rounds for a balance end, or run out, which is an error of numbers. -/
@[simp] theorem numeric_balanceLoop (s : BalanceSearch) (start : Nat) :
    numeric (balanceLoop s start) = balanceLoop s start := by
  simp [balanceLoop]

/-- The number `K0` is checked factor by factor. -/
@[simp] theorem numeric_scaledProduct (xs : List Nat) (d : Nat) :
    numeric (scaledProduct xs d) = scaledProduct xs d := by
  unfold scaledProduct
  dsimp only
  split <;> simp

/-- One round for the invariant is made of checked operations. -/
@[simp] theorem numeric_invariantRound (ann gamma : Nat) (xs : List Nat) (total least d : Nat) :
    numeric (invariantRound ann gamma xs total least d) = invariantRound ann gamma xs total least d := by
  simp [invariantRound]

/-- The rounds for the invariant end or run out. -/
@[simp] theorem numeric_invariantLoop (ann gamma : Nat) (xs : List Nat) (start least : Nat) :
    numeric (invariantLoop ann gamma xs start least) = invariantLoop ann gamma xs start least := by
  simp [invariantLoop]

/-- One round for the geometric mean is made of checked operations. -/
@[simp] theorem numeric_meanRound (xs : List Nat) (d : Nat) : numeric (meanRound xs d) = meanRound xs d := by
  unfold meanRound
  dsimp only
  split <;> simp

/-- So is the geometric mean. An empty row has none, which is an error of numbers. -/
@[simp] theorem numeric_geometricMean (xs : List Nat) : numeric (geometricMean xs) = geometricMean xs := by
  cases xs <;> simp [geometricMean]

/-- The invariant is found from the sorted balances, within its bounds. -/
@[simp] theorem numeric_invariant (ann gamma : Nat) (xs : List Nat) (bounds : Bounds) :
    numeric (invariant ann gamma xs bounds) = invariant ann gamma xs bounds := by
  simp only [invariant]
  cases sortedDown xs <;> simp [Bounds.check]

/-- How balanced a pool is, is a quotient of checked products. -/
@[simp] theorem numeric_reduction (xs : List Nat) (feeGamma : Nat) :
    numeric (reduction xs feeGamma) = reduction xs feeGamma := by
  simp [reduction]

/-- A blend of the two fees is one too. -/
@[simp] theorem numeric_blend (weight mid out : Nat) : numeric (blend weight mid out) = blend weight mid out := by
  simp [blend]

end Cryptoswap

namespace Curve.CryptoState

variable (s : CryptoState)

/-- The invariant of a pool of two volatile coins. -/
@[simp] theorem numeric_invariant : numeric s.invariant = s.invariant := by
  simp [invariant]

/-- Its fee is a blend by the reduction. -/
@[simp] theorem numeric_fee (x y : Nat) : numeric (s.fee x y) = s.fee x y := by
  simp [fee, feeWeight]

/-- A balance that completes the other one is found in rounds. -/
@[simp] theorem numeric_completing (ann gamma other d : Nat) :
    numeric (completing ann gamma other d) = completing ann gamma other d := by
  simp [completing]

/-- **A cryptoswap quote fails by its numbers alone.** -/
@[simp] theorem numeric_swap (i j amountIn : Nat) : numeric (s.swap i j amountIn) = s.swap i j amountIn := by
  simp [swap]

end Curve.CryptoState

namespace TriCrypto

open Cryptoswap

/-- Balances of three coins are scaled by price and precision. -/
@[simp] theorem numeric_scaled (balances : Vector Nat 3) (prices : Vector Nat 2) (precisions : Vector Nat 3) :
    numeric (scaled balances prices precisions) = scaled balances prices precisions := by
  simp [scaled]

/-- A balance that completes two others is found in rounds, within bounds. -/
@[simp] theorem numeric_balanceOf (ann gamma : Nat) (xs : Vector Nat 3) (d i : Nat) (bounds : Bounds) :
    numeric (balanceOf ann gamma xs d i bounds) = balanceOf ann gamma xs d i bounds := by
  simp [balanceOf, -List.foldlM_reverse]

/-- What is paid out is a difference, scaled back by price and precision, less a fee. -/
@[simp] theorem numeric_payOut (xs : Vector Nat 3) (prices : Vector Nat 2) (precisions : Vector Nat 3)
    (feeGamma midFee outFee j y : Nat) :
    numeric (payOut xs prices precisions feeGamma midFee outFee j y) =
      payOut xs prices precisions feeGamma midFee outFee j y := by
  simp [payOut]

/-- An input is added to its balance with a check. -/
@[simp] theorem numeric_raised (balances : Vector Nat 3) (i amountIn : Nat) :
    numeric (raised balances i amountIn) = raised balances i amountIn := by
  simp [raised]

end TriCrypto

/-- **A cryptoswap quote of three coins fails by its numbers alone.** -/
@[simp] theorem Curve.TriCryptoState.numeric_swap (s : TriCryptoState) (i j amountIn : Nat) :
    numeric (s.swap i j amountIn) = s.swap i j amountIn := by
  simp [swap, invariant]

/-! ### The cubic of the next generation -/

namespace Signed

variable (a b : Int)

/-- A signed number of 256 bits fits or overflows. -/
@[simp] theorem numeric_fit : numeric (fit a) = fit a := by simp [fit]

/-- A signed sum is checked. -/
@[simp] theorem numeric_add : numeric (add a b) = add a b := numeric_fit _

/-- A signed difference is too. -/
@[simp] theorem numeric_sub : numeric (sub a b) = sub a b := numeric_fit _

/-- A signed product is too. -/
@[simp] theorem numeric_mul : numeric (mul a b) = mul a b := numeric_fit _

/-- A signed quotient has a zero divisor at worst. -/
@[simp] theorem numeric_div : numeric (div a b) = div a b := by simp [div]

/-- An amount as a signed number may not fit. -/
@[simp] theorem numeric_ofNat (n : Nat) : numeric (ofNat n) = ofNat n := numeric_fit _

/-- A negative number is no amount, which is an error of numbers. -/
@[simp] theorem numeric_toNat : numeric (toNat a) = toNat a := by simp [toNat]

end Signed

namespace TriCryptoNg

/-- The invariant of the next generation starts from a guess, or from the geometric mean. -/
@[simp] theorem numeric_invariant (xs : Vector Nat 3) (ann gamma k0 : Nat) :
    numeric (invariant xs ann gamma k0) = invariant xs ann gamma k0 := by
  simp [invariant, geometricMean, guess]

namespace Cubic

/-- The coefficients of the cubic are checked signed products. -/
@[simp] theorem numeric_ofPool (ann gamma x y d : Int) : numeric (ofPool ann gamma x y d) = ofPool ann gamma x y d := by
  simp [ofPool]

variable (p : Cubic)

/-- They are brought to a common size by checked divisions. -/
@[simp] theorem numeric_rescaled : numeric p.rescaled = p.rescaled := by
  simp [rescaled]

/-- The two invariants of the cubic are checked signed numbers. -/
@[simp] theorem numeric_deltas : numeric p.deltas = p.deltas := by
  simp [deltas]

/-- So is its discriminant. -/
@[simp] theorem numeric_discriminant (delta0 delta1 : Int) :
    numeric (p.discriminant delta0 delta1) = p.discriminant delta0 delta1 := by
  simp [discriminant]

/-- A root, where there is one, is a checked quotient of roots. -/
@[simp] theorem numeric_root (delta0 delta1 discriminant : Int) :
    numeric (p.root delta0 delta1 discriminant) = p.root delta0 delta1 discriminant := by
  simp [root, signedRoot]

end Cubic

/-- A solved balance is checked against its share. -/
@[simp] theorem numeric_solvedOf (p : Cubic) (root x y d : Int) :
    numeric (solvedOf p root x y d) = solvedOf p root x y d := by
  simp [solvedOf]

/-- So a balance is found from the cubic, or in rounds where it has none. -/
@[simp] theorem numeric_balanceOf (ann gamma : Nat) (xs : Vector Nat 3) (d i : Nat) :
    numeric (balanceOf ann gamma xs d i) = balanceOf ann gamma xs d i := by
  simp [balanceOf]

end TriCryptoNg

/-- **A cryptoswap quote of three coins, next generation, fails by its numbers alone.** -/
@[simp] theorem Curve.TriCryptoNgState.numeric_swap (s : TriCryptoNgState) (i j amountIn : Nat) :
    numeric (s.swap i j amountIn) = s.swap i j amountIn := by
  simp [swap, invariant]

end Searcher
