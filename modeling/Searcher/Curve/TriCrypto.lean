/-
# Cryptoswap pools of three coins

The second and third coin have a price in units of the first. The balance of the output coin is found by the Newton
iteration of the cryptoswap invariant.
-/

import Searcher.Curve.Cryptoswap

namespace Searcher
namespace TriCrypto

open Cryptoswap

/-- The entry of coin `i` of a pool of three. -/
def coin (xs : Vector Nat 3) (i : Nat) : Nat := xs.toList.getD i 0

/-- The price of coin `i` in units of the first coin, for the other two coins. -/
def price (prices : Vector Nat 2) (i : Nat) : Nat := prices.toList.getD (i - 1) 0

/-- Balances in units of the first coin. -/
def scaled (balances : Vector Nat 3) (prices : Vector Nat 2) (precisions : Vector Nat 3) : Quote (Vector Nat 3) := do
  let x ← Checked.mul (coin balances 0) (coin precisions 0)
  let y ← Checked.div (← Checked.mul (← Checked.mul (coin balances 1) (price prices 1)) (coin precisions 1)) e18
  let z ← Checked.div (← Checked.mul (← Checked.mul (coin balances 2) (price prices 2)) (coin precisions 2)) e18
  return Cryptoswap.three x y z

/-- The two scaled balances other than that of coin `i`. -/
def others (xs : Vector Nat 3) (i : Nat) : List Nat := xs.toList.eraseIdx i

/-- The balance of coin `i` at the invariant `d`, the other scaled balances being as they are. The product of the
approximation runs from the smallest balance up, that of the search from the largest down. -/
def balanceOf (ann gamma : Nat) (xs : Vector Nat 3) (d i : Nat) (bounds : Bounds) : Quote Nat := do
  bounds.checkWith ann gamma d
  (others xs i).forM fun x => checkShare x d (10 ^ 16)
  let sorted := sortedDown (others xs i)
  let tolerance := max (max (sorted.headD 0 / 10 ^ 14) (d / 10 ^ 14)) 100
  let (start, total) ← sorted.reverse.foldlM (fun (y, total) x => do
    let y ← Checked.div (← Checked.mul y d) (← Checked.mul x 3)
    return (y, ← Checked.add total x)) (d / 3, 0)
  let product ← sorted.foldlM (fun k x => do Checked.div (← Checked.mul (← Checked.mul k x) 3) d) e18
  balanceLoop ⟨ann, gamma, d, 3, total, product, tolerance⟩ start

/-- What a new scaled balance `y` of coin `j` pays out: the difference scaled back, less the fee. -/
def payOut (xs : Vector Nat 3) (prices : Vector Nat 2) (precisions : Vector Nat 3) (feeGamma midFee outFee : Nat)
    (j y : Nat) : Quote Nat := do
  let out ← Checked.sub (← Checked.sub (coin xs j) y) 1
  let out ← if 0 < j then do Checked.div (← Checked.mul out e18) (price prices j) else pure out
  let out ← Checked.div out (coin precisions j)
  let fee ← blend (← reduction (xs.toList.set j y) feeGamma) midFee outFee
  Checked.sub out (← Checked.div (← Checked.mul fee out) e10)

/-- Balances after an input of coin `i`. -/
def raised (balances : Vector Nat 3) (i amountIn : Nat) : Quote (Vector Nat 3) := do
  let b ← Checked.add (coin balances i) amountIn
  return balances.setIfInBounds i b

end TriCrypto

namespace Curve

open Cryptoswap TriCrypto

/-- The state of a cryptoswap pool of three coins. -/
structure TriCryptoState where
  info : Info
  amp : Nat
  gamma : Nat
  d : Nat
  /-- The prices of the second and third coin in the first. -/
  priceScale : Vector Nat 2
  feeGamma : Nat
  midFee : Nat
  outFee : Nat
  /-- When the parameters stop moving, or zero when they do not move. -/
  rampEnd : Nat
  balances : Vector Nat 3
deriving DecidableEq, Inhabited

namespace TriCryptoState

/-- The precisions of the three coins, one each if the table does not name three. -/
def precisions (s : TriCryptoState) : Vector Nat 3 :=
  match s.info.precisions with
  | [p, q, r] => Cryptoswap.three p q r
  | _ => Cryptoswap.three 1 1 1

/-- The invariant at which the pool trades. -/
def invariant (s : TriCryptoState) : Quote Nat := do
  if s.rampEnd = 0 then return s.d
  let xs ← scaled s.balances s.priceScale s.precisions
  Cryptoswap.invariant s.amp s.gamma xs.toList (.first 3)

/-- What `amountIn` of coin `i` pays in coin `j`. -/
def swap (s : TriCryptoState) (i j amountIn : Nat) : Quote Nat := do
  if i = j ∨ 3 ≤ i ∨ 3 ≤ j then throw (.outOfBounds .coin)
  let d ← s.invariant
  let xs ← scaled (← raised s.balances i amountIn) s.priceScale s.precisions
  let y ← balanceOf s.amp s.gamma xs d j (.first 3)
  payOut xs s.priceScale s.precisions s.feeGamma s.midFee s.outFee j y

end TriCryptoState
end Curve
end Searcher
