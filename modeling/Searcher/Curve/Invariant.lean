/-
# The stableswap invariant

A stableswap pool of `n` coins with scaled balances `x` and amplification `A` keeps the number `D` with

    A n^n Σ x + D = A D n^n + D^(n+1) / (n^n Π x)

constant. Everything here is the integer iteration that contracts run, with their divisions rounded down.

* `invariant` and `invariantNg` find `D` from the balances. The second divides the product once by `n ^ n`.
* `balance` finds the balance of one coin from `D` and the other balances.

The amplification may come multiplied by a `scale`; it is one for pools that do not scale it.
-/

import Searcher.Curve.Newton

namespace Searcher
namespace StableSwap

/-- The sum of balances. -/
def sum (xs : List Nat) : Quote Nat := xs.foldlM Checked.add 0

/-- The next approximation of `D`. `product` is `D ^ (n+1) / (n ^ n Π x)`, `ann` the amplification times `n`. -/
def nextInvariant (ann n total scale product d : Nat) : Quote Nat := do
  let gain ← Checked.div (← Checked.mul ann total) scale
  let numerator ← Checked.mul (← Checked.add gain (← Checked.mul product n)) d
  let loss ← Checked.div (← Checked.mul (← Checked.sub ann scale) d) scale
  let denominator ← Checked.add loss (← Checked.mul (← Checked.add n 1) product)
  Checked.div numerator denominator

/-- `D ^ (n+1) / (n ^ n Π x)` with one division for each coin. `extra` is added to each divisor. -/
def productByCoin (xs : List Nat) (n extra d : Nat) : Quote Nat :=
  xs.foldlM (fun p x => do Checked.div (← Checked.mul p d) (← Checked.add (← Checked.mul x n) extra)) d

/-- `D ^ (n+1) / (n ^ n Π x)` with the power of `n` divided out at the end. -/
def productAtOnce (xs : List Nat) (n d : Nat) : Quote Nat := do
  let p ← xs.foldlM (fun p x => do Checked.div (← Checked.mul p d) x) d
  Checked.div p (wrap (n ^ n))

/-- Iterates from the sum of the balances. A pool without balances has the invariant zero. -/
def invariantBy (product : Nat → Quote Nat) (xs : List Nat) (amp scale : Nat) : Quote Nat := do
  let total ← sum xs
  if total = 0 then return 0
  let ann ← Checked.mul amp xs.length
  Newton.settle (fun d => do nextInvariant ann xs.length total scale (← product d) d) total

/-- The invariant of a pool of the first generation. With `plusOne` each divisor of the product is one larger, as in
some old pools. -/
def invariant (xs : List Nat) (amp scale : Nat) (plusOne : Bool) : Quote Nat :=
  invariantBy (productByCoin xs xs.length (if plusOne then 1 else 0)) xs amp scale

/-- The invariant of a pool of the next generation. -/
def invariantNg (xs : List Nat) (amp scale : Nat) : Quote Nat :=
  invariantBy (productAtOnce xs xs.length) xs amp scale

/-- One step towards the root of `y ^ 2 + (b - d) y = c`. -/
def nextBalance (b c d y : Nat) : Quote Nat := do
  let numerator ← Checked.add (← Checked.mul y y) c
  let denominator ← Checked.sub (← Checked.add (← Checked.mul y 2) b) d
  Checked.div numerator denominator

/-- The root of `y ^ 2 + (b - d) y = c` to within one, from the approximation `start`. -/
def solveBalance (b c d start : Nat) : Quote Nat :=
  Newton.settle (nextBalance b c d) start

/-- The balance that completes the `others` of a pool of `n` coins to the invariant `d`. -/
def completing (amp n : Nat) (others : List Nat) (d scale : Nat) : Quote Nat := do
  let ann ← Checked.mul amp n
  let (total, c) ← others.foldlM (fun (total, c) x => do
    let total ← Checked.add total x
    return (total, ← Checked.div (← Checked.mul c d) (← Checked.mul x n))) (0, d)
  let c ← Checked.div (← Checked.mul (← Checked.mul c d) scale) (← Checked.mul ann n)
  let b ← Checked.add total (← Checked.div (← Checked.mul d scale) ann)
  solveBalance b c d d

/-- The balance of coin `j` after that of coin `i` has become `x`, at the invariant `d`. -/
def balanceAt (amp i j x : Nat) (xs : List Nat) (d scale : Nat) : Quote Nat :=
  if i = j ∨ xs.length ≤ i ∨ xs.length ≤ j then .error (.outOfBounds .coin)
  else completing amp xs.length ((xs.set i x).eraseIdx j) d scale

/-- The balance of coin `j` after that of coin `i` has become `x`. -/
def balance (amp i j x : Nat) (xs : List Nat) (scale : Nat) (plusOne : Bool) : Quote Nat := do
  balanceAt amp i j x xs (← invariant xs amp scale plusOne) scale

/-- The balance of coin `i` at the invariant `d`, the others being as they are. -/
def balanceOf (amp i : Nat) (xs : List Nat) (d : Nat) : Quote Nat :=
  if xs.length ≤ i then .error (.outOfBounds .coin)
  else completing amp xs.length (xs.eraseIdx i) d 1

/-- The fee of a trade between coins with balances `x` and `y`: `fee` when they are equal, and up to `multiplier`
times as much, in units of `e10`, the further they are apart. -/
def dynamicFee (x y fee multiplier : Nat) : Quote Nat := do
  if multiplier ≤ e10 then return fee
  let total ← Checked.add x y
  let square ← Checked.mul total total
  let excess ← Checked.mul (← Checked.sub multiplier e10) 4
  let closeness ← Checked.div (← Checked.mul (← Checked.mul excess x) y) square
  Checked.div (← Checked.mul multiplier fee) (← Checked.add closeness e10)

/-- The part of `amount` that a fee in units of `e10` takes. -/
def feeOf (fee amount : Nat) : Quote Nat := do
  Checked.div (← Checked.mul fee amount) e10

/-- What stays of `amount` after the fee. -/
def afterFee (fee amount : Nat) : Quote Nat := do
  Checked.sub amount (← feeOf fee amount)

end StableSwap
end Searcher
