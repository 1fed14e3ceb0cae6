/-
# Cryptoswap pools of three coins, next generation

The balance of the output coin is the root of a cubic `a x³ + b x² + c x + d`, with coefficients that depend on the
parameters and the other two balances. They are first brought to a common size; then

    Δ0 = 3ac / b - b        Δ1 = 9ac / b - 2b - 27a²d / b²

and Cardano's formula gives `K0`, from which the balance follows. Where the discriminant `Δ1² + 4Δ0³ / b` is not
positive the Newton iteration of the first generation is used, and `K0` is reported as zero.
-/

import Searcher.Curve.Cubic
import Searcher.Curve.TriCrypto

namespace Searcher
namespace TriCryptoNg

open Cryptoswap TriCrypto

/-- The ranges that the contract accepts. -/
def bounds : Bounds := ⟨27 * ampScale / 100, 27 * ampScale * 1000, 5 * 10 ^ 16⟩

/-- The geometric mean of three balances. -/
def geometricMean (x y z : Nat) : Quote Nat := do
  let p ← Checked.div (← Checked.mul x y) e18
  let p ← Checked.div (← Checked.mul p z) e18
  return if p = 0 then 0 else Root.cbrt p

/-- An approximation of the invariant from balances and an earlier `K0`. -/
def guess (x y z k0 : Nat) : Quote Nat := do
  let total ← Checked.add (← Checked.add x y) z
  let (unit, boost) := if 10 ^ 36 < total then (10 ^ 36, 10 ^ 12)
    else if 10 ^ 24 < total then (10 ^ 24, 10 ^ 6)
    else (e18, 1)
  let p ← Checked.div (← Checked.mul x y) unit
  let p ← Checked.div (← Checked.mul p z) k0
  return Root.cbrt (← Checked.mul (← Checked.mul p 27) boost)

/-- The invariant of scaled balances. An earlier `K0` that is not zero improves the first approximation. -/
def invariant (xs : Vector Nat 3) (ann gamma k0 : Nat) : Quote Nat := do
  let sorted := sortedDown xs.toList
  let x := sorted.getD 0 0
  let y := sorted.getD 1 0
  let z := sorted.getD 2 0
  if (← Checked.mul ((wordSize - 1) / e18) 27) ≤ x then throw (.outOfBounds .largestBalance)
  if x = 0 then throw (.outOfBounds .emptyPool)
  let start ← if k0 = 0 then do Checked.mul 3 (← geometricMean x y z) else guess x y z k0
  invariantLoop ann gamma sorted start (10 ^ 16 - 1)

/-- A cubic polynomial. -/
structure Cubic where
  a : Int
  b : Int
  c : Int
  d : Int
deriving DecidableEq, Repr

namespace Cubic

/-- The cubic whose root gives the balance, at the other balances `x` and `y`. -/
def ofPool (ann gamma x y d : Int) : Quote Cubic := do
  let e36 : Int := 10 ^ 36
  let one : Int := 10 ^ 18
  let gamma2 ← Signed.mul gamma gamma
  let a ← Signed.div e36 27
  let bHead ← Signed.add (← Signed.div e36 9)
    (← Signed.div (← Signed.mul (← Signed.mul 2 one) gamma) 27)
  let bTail ← Signed.mul (← Signed.mul (← Signed.div (← Signed.mul d d) x) gamma2) ann
  let bTail ← Signed.div (← Signed.div (← Signed.div bTail 729) ampScale) y
  let b ← Signed.sub bHead bTail
  let cHead ← Signed.add (← Signed.div e36 9)
    (← Signed.div (← Signed.mul gamma (← Signed.add gamma (← Signed.mul 4 one))) 27)
  let cTail ← Signed.div (← Signed.mul gamma2 (← Signed.sub (← Signed.add x y) d)) d
  let cTail ← Signed.div (← Signed.div (← Signed.mul cTail ann) 27) ampScale
  let c ← Signed.add cHead cTail
  let g ← Signed.add one gamma
  return ⟨a, b, c, ← Signed.div (← Signed.mul g g) 27⟩

/-- What the coefficients are divided by, for a given size of `Δ0`. -/
def divisor (size : Nat) : Nat :=
  match [48, 44, 40, 36, 32, 28, 24, 20].find? fun bound => 10 ^ bound < size with
  | some bound => 10 ^ (bound - 18)
  | none => 1

/-- Brings the coefficients to a common size. -/
def rescaled (p : Cubic) : Quote Cubic := do
  let size ← Signed.sub (← Signed.div (← Signed.mul (← Signed.mul 3 p.a) p.c) p.b) p.b
  let divisor : Int := divisor size.natAbs
  if p.b.natAbs < p.a.natAbs then
    let factor ← Signed.ofNat (← Signed.div p.a p.b).natAbs
    let rescale (n : Int) : Quote Int := do Signed.div (← Signed.mul n factor) divisor
    return ⟨← rescale p.a, ← rescale p.b, ← rescale p.c, ← rescale p.d⟩
  else
    let factor ← Signed.ofNat (← Signed.div p.b p.a).natAbs
    let rescale (n : Int) : Quote Int := do Signed.div (← Signed.div n factor) divisor
    return ⟨← rescale p.a, ← rescale p.b, ← rescale p.c, ← rescale p.d⟩

/-- The two invariants of the cubic. -/
def deltas (p : Cubic) : Quote (Int × Int) := do
  let ac ← Signed.mul (← Signed.mul 3 p.a) p.c
  let delta0 ← Signed.sub (← Signed.div ac p.b) p.b
  let head ← Signed.sub (← Signed.div (← Signed.mul 3 ac) p.b) (← Signed.mul 2 p.b)
  let tail ← Signed.div (← Signed.mul 27 (← Signed.mul p.a p.a)) p.b
  let tail ← Signed.div (← Signed.mul tail p.d) p.b
  return (delta0, ← Signed.sub head tail)

/-- The discriminant. -/
def discriminant (p : Cubic) (delta0 delta1 : Int) : Quote Int := do
  let cube ← Signed.div (← Signed.mul 4 (← Signed.mul delta0 delta0)) p.b
  Signed.add (← Signed.mul delta1 delta1) (← Signed.mul cube delta0)

/-- The cube root of a signed number. -/
def signedRoot (n : Int) : Quote Int := do
  let r ← Signed.ofNat (Root.cbrt n.natAbs)
  if n < 0 then Signed.sub 0 r else return r

/-- The root of a cubic with a positive discriminant, as a multiple of its first coefficient. -/
def root (p : Cubic) (delta0 delta1 discriminant : Int) : Quote Int := do
  let one : Int := 10 ^ 18
  let s ← Signed.ofNat (Root.isqrt discriminant.natAbs)
  let first ← signedRoot p.b
  let second ← if 0 < delta1 then do
      Signed.ofNat (Root.cbrt ((← Signed.add delta1 s).natAbs / 2))
    else do
      Signed.sub 0 (← Signed.ofNat (Root.cbrt ((← Signed.sub s delta1).natAbs / 2)))
  let c1 ← Signed.div (← Signed.mul (← Signed.div (← Signed.mul first first) one) second) one
  let sum ← Signed.add p.b (← Signed.div (← Signed.mul p.b delta0) c1)
  Signed.div (← Signed.sub sum c1) 3

end Cubic

/-- The balance of a coin and `K0`, which is zero when the cubic was not used. -/
structure Solved where
  balance : Nat
  k0 : Nat
deriving DecidableEq, Repr

/-- The two coins other than coin `i`. -/
def otherCoins (i : Nat) : Nat × Nat :=
  if i = 0 then (1, 2) else if i = 1 then (0, 2) else (0, 1)

/-- The balance and `K0` that follow from the root of the cubic, at the other balances `x` and `y`. -/
def solvedOf (p : Cubic) (root x y d : Int) : Quote Solved := do
  let one : Int := 10 ^ 18
  let scale ← Signed.div (← Signed.div (← Signed.mul d d) 27) y
  let scale ← Signed.div (← Signed.mul scale d) x
  let balance ← Signed.div (← Signed.mul scale root) p.a
  let k0 ← Signed.div (← Signed.mul one root) p.a
  let share ← Signed.div (← Signed.mul balance one) d
  if share < 10 ^ 16 - 1 ∨ 10 ^ 20 < share then throw (.outOfBounds .newBalance)
  return ⟨← Signed.toNat balance, ← Signed.toNat k0⟩

/-- The balance of coin `i` at the invariant `d`. -/
def balanceOf (ann gamma : Nat) (xs : Vector Nat 3) (d i : Nat) : Quote Solved := do
  bounds.checkWith ann gamma d
  (others xs i).forM fun x => checkShare x d (10 ^ 16)
  let (j, k) := otherCoins i
  let annS ← Signed.ofNat ann
  let gammaS ← Signed.ofNat gamma
  let dS ← Signed.ofNat d
  let x ← Signed.ofNat (coin xs j)
  let y ← Signed.ofNat (coin xs k)
  let p ← (← Cubic.ofPool annS gammaS x y dS).rescaled
  let (delta0, delta1) ← p.deltas
  let discriminant ← p.discriminant delta0 delta1
  if 0 < discriminant then solvedOf p (← p.root delta0 delta1 discriminant) x y dS
  else return ⟨← TriCrypto.balanceOf ann gamma xs d i bounds, 0⟩

end TriCryptoNg

namespace Curve

open Cryptoswap TriCrypto

/-- The state of a cryptoswap pool of three coins, next generation. -/
structure TriCryptoNgState where
  amp : Nat
  gamma : Nat
  d : Nat
  /-- The prices of the second and third coin in the first. -/
  priceScale : Vector Nat 2
  precisions : Vector Nat 3
  feeGamma : Nat
  midFee : Nat
  outFee : Nat
  /-- When the parameters stop moving. -/
  rampEnd : Nat
  balances : Vector Nat 3
  /-- The time of the block that the state was read at. -/
  timestamp : Nat
deriving DecidableEq, Inhabited

namespace TriCryptoNgState

/-- The invariant at which the pool trades: the stored one once the parameters have stopped moving. -/
def invariant (s : TriCryptoNgState) : Quote Nat := do
  if s.rampEnd ≤ s.timestamp then return s.d
  TriCryptoNg.invariant (← scaled s.balances s.priceScale s.precisions) s.amp s.gamma 0

/-- What `amountIn` of coin `i` pays in coin `j`. -/
def swap (s : TriCryptoNgState) (i j amountIn : Nat) : Quote Nat := do
  if i = j ∨ 3 ≤ i ∨ 3 ≤ j then throw (.outOfBounds .coin)
  let d ← s.invariant
  let xs ← scaled (← raised s.balances i amountIn) s.priceScale s.precisions
  let solved ← TriCryptoNg.balanceOf s.amp s.gamma xs d j
  payOut xs s.priceScale s.precisions s.feeGamma s.midFee s.outFee j solved.balance

end TriCryptoNgState
end Curve
end Searcher
