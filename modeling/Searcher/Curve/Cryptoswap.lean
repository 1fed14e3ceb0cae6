/-
# The cryptoswap invariant

Cryptoswap pools hold coins of different value. Balances are brought to units of the first coin by a price scale, and
the invariant `D` depends on two parameters: the amplification `A` and `gamma`, which says how fast the amplification
falls off away from the peg. With `K0 = Π x * (n / D) ^ n` and `g = gamma + 1 - K0`, all with eighteen decimals, both
`D` and the balance of a coin are found by Newton iterations:

* `invariant` sorts the balances, checks their range and iterates from `n` times their geometric mean;
* `balanceLoop` finds the balance of one coin from the sum and the scaled product of the others.

Contracts refuse parameters and balances outside fixed ranges; so do the functions here.
-/

import Searcher.Curve.Newton
import Searcher.Curve.Info

namespace Searcher
namespace Cryptoswap

/-- A value for each of two coins. -/
def two (x y : Nat) : Vector Nat 2 := #v[x, y]

/-- A value for each of three coins. -/
def three (x y z : Nat) : Vector Nat 3 := #v[x, y, z]

/-- What the amplification is multiplied by. -/
def ampScale : Nat := 10000

/-- The ranges that a contract accepts. -/
structure Bounds where
  minAmp : Nat
  maxAmp : Nat
  maxGamma : Nat
deriving DecidableEq, Repr

/-- The ranges of the first generation, for `n` coins. -/
def Bounds.first (n : Nat) : Bounds :=
  ⟨n ^ n * ampScale / 10, n ^ n * ampScale * 100000, 2 * 10 ^ 16⟩

/-- Fails unless the parameters are within their ranges. -/
def Bounds.check (b : Bounds) (ann gamma : Nat) : Quote Unit :=
  if ann < b.minAmp ∨ b.maxAmp < ann then .error (.outOfBounds .amplification)
  else if gamma < e10 ∨ b.maxGamma < gamma then .error (.outOfBounds .gamma)
  else .ok ()

/-- Fails unless the parameters and the invariant are within their ranges. -/
def Bounds.checkWith (b : Bounds) (ann gamma d : Nat) : Quote Unit := do
  b.check ann gamma
  if d < 10 ^ 17 ∨ 10 ^ 33 < d then throw (.outOfBounds .invariant)

/-- Fails unless the balance is at least `least` and at most a hundred times the invariant, with eighteen decimals. -/
def checkShare (x d least : Nat) : Quote Unit := do
  let share ← Checked.div (← Checked.mul x e18) d
  if share < least ∨ 10 ^ 20 < share then throw (.outOfBounds .balanceRatio)

/-- The distance of `gamma + 1` from `K0`, plus one unit. -/
def gap (gamma k0 : Nat) : Quote Nat := do
  let g ← Checked.add gamma e18
  Checked.add (absDiff g k0) 1

/-- `D g² / (gamma² A)`. -/
def curvature (ann gamma d g : Nat) : Quote Nat := do
  let v ← Checked.div (← Checked.mul e18 d) gamma
  let v ← Checked.div (← Checked.mul v g) gamma
  Checked.div (← Checked.mul (← Checked.mul v g) ampScale) ann

/-- What a search for the balance of a coin is given. -/
structure BalanceSearch where
  ann : Nat
  gamma : Nat
  d : Nat
  /-- The number of coins. -/
  n : Nat
  /-- The sum of the other balances. -/
  total : Nat
  /-- The scaled product of the other balances. -/
  product : Nat
  /-- The change below which the search may stop. -/
  tolerance : Nat
deriving Repr

/-- One round of the search from the balance `y`. Where the derivative is not positive the balance is halved. -/
def balanceRound (s : BalanceSearch) (y : Nat) : Quote Newton.Round := do
  let k0 ← Checked.div (← Checked.mul (← Checked.mul s.product y) s.n) s.d
  let total ← Checked.add s.total y
  let g ← gap s.gamma k0
  let mul1 ← curvature s.ann s.gamma s.d g
  let mul2 ← Checked.add e18 (← Checked.div (← Checked.mul (2 * e18) k0) g)
  let rising ← Checked.add (← Checked.add (← Checked.mul e18 y) (← Checked.mul total mul2)) mul1
  let falling ← Checked.mul s.d mul2
  if rising < falling then return .again (y / 2)
  let slope := rising - falling
  let slopePerUnit ← Checked.div slope y
  let down ← Checked.div mul1 slopePerUnit
  let up ← Checked.add (← Checked.div (← Checked.add slope (← Checked.mul e18 s.d)) slopePerUnit)
    (← Checked.div (← Checked.mul down e18) k0)
  let down ← Checked.add down (← Checked.div (← Checked.mul e18 total) slopePerUnit)
  let next := if up < down then y / 2 else up - down
  if absDiff next y < max s.tolerance (next / 10 ^ 14) then
    checkShare next s.d (10 ^ 16)
    return .done next
  else return .again next

/-- The balance of the coin, from the approximation `start`. -/
def balanceLoop (s : BalanceSearch) (start : Nat) : Quote Nat :=
  Newton.iterate (balanceRound s) start

/-- `K0` of sorted balances. Pools of two coins take one product. -/
def scaledProduct (xs : List Nat) (d : Nat) : Quote Nat := do
  let n := xs.length
  match xs with
  | [x, y] =>
    let p ← Checked.mul (← Checked.mul e18 (← Checked.mul n n)) x
    Checked.div (← Checked.mul (← Checked.div p d) y) d
  | xs => xs.foldlM (fun k x => do Checked.div (← Checked.mul (← Checked.mul k x) n) d) e18

/-- One round of the search for the invariant of sorted balances. -/
def invariantRound (ann gamma : Nat) (xs : List Nat) (total least : Nat) (d : Nat) : Quote Newton.Round := do
  let n := xs.length
  let k0 ← scaledProduct xs d
  let g ← gap gamma k0
  let mul1 ← curvature ann gamma d g
  let mul2 ← Checked.div (← Checked.mul (← Checked.mul (2 * e18) n) k0) g
  let rise ← Checked.add (← Checked.add total (← Checked.div (← Checked.mul total mul2) e18))
    (← Checked.div (← Checked.mul mul1 n) k0)
  let slope ← Checked.sub rise (← Checked.div (← Checked.mul mul2 d) e18)
  let up ← Checked.div (← Checked.mul d (← Checked.add slope total)) slope
  let down ← Checked.div (← Checked.mul d d) slope
  let correction ← Checked.div (← Checked.mul d (← Checked.div mul1 slope)) e18
  let down ← if k0 < e18 then
      do Checked.add down (← Checked.div (← Checked.mul correction (e18 - k0)) k0)
    else
      do Checked.sub down (← Checked.div (← Checked.mul correction (k0 - e18)) k0)
  let next := if down < up then up - down else (down - up) / 2
  if (← Checked.mul (absDiff next d) (10 ^ 14)) < max (10 ^ 16) next then
    xs.forM fun x => checkShare x next least
    return .done next
  else return .again next

/-- The invariant of sorted balances, from the approximation `start`. -/
def invariantLoop (ann gamma : Nat) (xs : List Nat) (start least : Nat) : Quote Nat := do
  let total ← xs.foldlM Checked.add 0
  Newton.iterate (invariantRound ann gamma xs total least) start

/-- One round of the search for a geometric mean. -/
def meanRound (xs : List Nat) (d : Nat) : Quote Newton.Round := do
  let n := xs.length
  let next ← match xs with
    | [x, y] => Checked.div (← Checked.add d (← Checked.div (← Checked.mul x y) d)) n
    | xs => do
      let t ← xs.foldlM (fun t x => do Checked.div (← Checked.mul t x) d) e18
      let numerator ← Checked.mul d (← Checked.add (← Checked.mul (← Checked.sub n 1) e18) t)
      Checked.div numerator (← Checked.mul n e18)
  let change := absDiff next d
  if change ≤ 1 then return .done next
  return if (← Checked.mul change e18) < next then .done next else .again next

/-- The geometric mean of sorted balances. -/
def geometricMean (xs : List Nat) : Quote Nat := do
  let some first := xs.head? | throw (.outOfBounds .emptyPool)
  Newton.iterate (meanRound xs) first

/-- The balances from the largest down. -/
def sortedDown (xs : List Nat) : List Nat := xs.mergeSort fun a b => b ≤ a

/-- The invariant of a pool of the first generation. -/
def invariant (ann gamma : Nat) (xs : List Nat) (bounds : Bounds) : Quote Nat := do
  bounds.check ann gamma
  let sorted := sortedDown xs
  let some largest := sorted.head? | throw (.outOfBounds .emptyPool)
  if largest < 10 ^ 9 ∨ 10 ^ 33 < largest then throw (.outOfBounds .largestBalance)
  let least := if xs.length = 2 then 10 ^ 14 else 10 ^ 11
  sorted.tail.forM fun x => do
    if (← Checked.div (← Checked.mul x e18) largest) < least then throw (.outOfBounds .balanceRatio)
  let start ← Checked.mul xs.length (← geometricMean sorted)
  invariantLoop ann gamma sorted start (10 ^ 16)

/-- How balanced a pool is, by the product of its balances over the power of their mean: the whole weight goes to the
middle fee for equal balances. Without `feeGamma` it is that quotient itself. -/
def reduction (xs : List Nat) (feeGamma : Nat) : Quote Nat := do
  let n := xs.length
  let total ← xs.foldlM Checked.add 0
  let k ← xs.foldlM (fun k x => do Checked.div (← Checked.mul (← Checked.mul k n) x) total) e18
  if feeGamma = 0 then return k
  Checked.div (← Checked.mul feeGamma e18) (← Checked.sub (← Checked.add feeGamma e18) k)

/-- The fee between `mid` and `out` that the weight of the first picks. -/
def blend (weight mid out : Nat) : Quote Nat := do
  Checked.div (← Checked.add (← Checked.mul mid weight) (← Checked.mul out (← Checked.sub e18 weight))) e18

end Cryptoswap

namespace Curve

open Cryptoswap

/-- The state of a cryptoswap pool of two coins. -/
structure CryptoState where
  info : Info
  amp : Nat
  gamma : Nat
  d : Nat
  /-- The price of the second coin in the first. -/
  priceScale : Nat
  feeGamma : Nat
  midFee : Nat
  outFee : Nat
  /-- When the parameters stop moving, or zero when they do not move. -/
  rampEnd : Nat
  balances : Vector Nat 2
deriving DecidableEq, Inhabited

namespace CryptoState

/-- The precisions of both coins, one each if the table does not name two. -/
def precisions (s : CryptoState) : Vector Nat 2 :=
  match s.info.precisions with
  | [p, q] => Cryptoswap.two p q
  | _ => Cryptoswap.two 1 1

/-- The invariant at which the pool trades: the stored one, or a new one while the parameters move. -/
def invariant (s : CryptoState) : Quote Nat := do
  if s.rampEnd = 0 then return s.d
  let p := s.precisions
  let x ← Checked.mul s.balances[0] p[0]
  let y ← Checked.div (← Checked.mul (← Checked.mul s.balances[1] p[1]) s.priceScale) e18
  Cryptoswap.invariant s.amp s.gamma [x, y] (.first 2)

/-- The weight of the middle fee at scaled balances `x` and `y`. -/
def feeWeight (s : CryptoState) (x y : Nat) : Quote Nat := do
  let total ← Checked.add x y
  let k ← Checked.div (← Checked.mul (4 * e18) x) total
  let k ← Checked.div (← Checked.mul k y) total
  Checked.div (← Checked.mul s.feeGamma e18) (← Checked.sub (← Checked.add s.feeGamma e18) k)

/-- The fee at scaled balances `x` and `y`. -/
def fee (s : CryptoState) (x y : Nat) : Quote Nat := do
  blend (← s.feeWeight x y) s.midFee s.outFee

/-- The balance that completes one scaled balance to the invariant. -/
def completing (ann gamma other d : Nat) : Quote Nat := do
  (Bounds.first 2).checkWith ann gamma d
  let start ← Checked.div (← Checked.mul d d) (← Checked.mul other 4)
  let product ← Checked.div (← Checked.mul (← Checked.mul e18 2) other) d
  if product < 2 * 10 ^ 16 ∨ 2 * 10 ^ 20 < product then throw (.outOfBounds .balanceRatio)
  let tolerance := max (max (other / 10 ^ 14) (d / 10 ^ 14)) 100
  balanceLoop ⟨ann, gamma, d, 2, other, product, tolerance⟩ start

/-- What `amountIn` of coin `i` pays in coin `j`. -/
def swap (s : CryptoState) (i j amountIn : Nat) : Quote Nat := do
  if i = j ∨ 1 < i ∨ 1 < j then throw (.outOfBounds .coin)
  let p := s.precisions
  let price ← Checked.mul s.priceScale p[1]
  let d ← s.invariant
  let raised ← Checked.add (if i = 0 then s.balances[0] else s.balances[1]) amountIn
  let b0 := if i = 0 then raised else s.balances[0]
  let b1 := if i = 0 then s.balances[1] else raised
  let x0 ← Checked.mul b0 p[0]
  let x1 ← Checked.div (← Checked.mul b1 price) e18
  let y ← completing s.amp s.gamma (if j = 0 then x1 else x0) d
  let out ← Checked.sub (← Checked.sub (if j = 0 then x0 else x1) y) 1
  let out ← if j = 0 then Checked.div out p[0] else do Checked.div (← Checked.mul out e18) price
  let fee ← if j = 0 then s.fee y x1 else s.fee x0 y
  Checked.sub out (← Checked.div (← Checked.mul fee out) e10)

end CryptoState
end Curve
end Searcher
